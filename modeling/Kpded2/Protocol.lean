import Mathlib.Algebra.Order.Ring.Nat
import Mathlib.Data.List.Basic

/-!
# Build options and protocol limits

The same source builds a Kingpin and a Quake 2 server; the preprocessor symbol
`KINGPIN` chooses between the limits below.
-/
namespace Protocol

inductive Build where
  | kingpin
  | quake2
  deriving DecidableEq

def protocolR1Q2 : Nat := 35

def maxMsglen : Build → Nat
  | .kingpin => 1400
  | .quake2 => 4096

def packetHeader : Nat := 10
def maxUsablemsg (build : Build) : Nat := maxMsglen build - packetHeader

def maxEdicts : Build → Nat
  | .kingpin => 2048
  | .quake2 => 1024

/-- Copies of a client's frame that are kept. -/
def updateBackup : Nat := 16
def maxPacketEntities : Nat := 64

end Protocol

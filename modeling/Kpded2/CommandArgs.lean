import Kpded2.Bytes

/-!
# The argument vector of the command tokenizer

`Cmd_TokenizeString` stores at most `MAX_STRING_TOKENS` tokens, each shorter than
`MAX_TOKEN_CHARS`, one after the other with their terminators in a buffer of
`2 * MAX_STRING_CHARS` bytes. The commands read the result through `Cmd_Argc`
and `Cmd_Argv`, so these limits hold of every argument list they can see.
-/
namespace CommandArgs

def maxStringChars : Nat := 1024
def maxStringTokens : Nat := 80
def maxTokenChars : Nat := 512

/-- The bytes `cmd_buffer` needs for the tokens and their terminators. -/
def storage (argv : List (List UInt8)) : Nat := (argv.map fun arg => arg.length + 1).sum

structure TokenList where
  argv : List (List UInt8)
  count : argv.length ≤ maxStringTokens
  short : ∀ arg ∈ argv, arg.length < maxTokenChars
  stored : storage argv < 2 * maxStringChars

def cmdArgc (args : TokenList) : Nat := args.argv.length

/-- `Cmd_Argv`: past the last argument it is the empty string. -/
def cmdArgv (args : TokenList) (arg : Nat) : List UInt8 := (args.argv[arg]?).getD []

theorem cmdArgv_of_argc_le {args : TokenList} {arg : Nat} (h : cmdArgc args ≤ arg) :
    cmdArgv args arg = [] := by
  rw [cmdArgv, List.getElem?_eq_none h]
  rfl

theorem storage_append (xs ys : List (List UInt8)) :
    storage (xs ++ ys) = storage xs + storage ys := by
  simp [storage]

theorem storage_cons (x : List UInt8) (xs : List (List UInt8)) :
    storage (x :: xs) = x.length + 1 + storage xs := by
  simp [storage]

end CommandArgs

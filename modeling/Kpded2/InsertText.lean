import Kpded2.ScopedCommands

/-!
# Text in front of the pending commands

`Cbuf_InsertText` copies the pending commands off, clears the buffer, adds the text by
`Cbuf_AddText` and writes the copy back. The capacity test of `Cbuf_AddText` then sees an
empty buffer, and the copy is written without a test, so a text that fits alone and not
together with what is pending ends in the fatal overflow. `exec` inserts whole files.
-/
namespace InsertText
open Bytes CommandArgs SizeBuf CommandBuffer ScopedCommands

/-- The contents of `cmd_text`, which has `COMMAND_BUFFER_SIZE` bytes. -/
abbrev Pending := { data : List UInt8 // data.length ≤ commandBufferSize }

def Pending.buffer (pending : Pending) : Sizebuf := commandBuffer pending.val

/-- The text stands in front, or it does not fit (`Cbuf_AddText` asks for one byte more than the
text) and the pending commands are as they were. -/
def Inserted (pending : Pending) (text : List UInt8) (result : Except Stop Sizebuf) : Prop :=
  result = .ok (commandBuffer (text ++ pending.val)) ∨
    text.length + pending.val.length ≥ commandBufferSize ∧ result = .ok pending.buffer

/-- The text is too long for the empty buffer, or fits in front of the pending commands. -/
def Safe (pending : Pending) (text : List UInt8) : Prop :=
  text.length ≥ commandBufferSize ∨ text.length + pending.val.length ≤ commandBufferSize

/-! ## Config files -/

/-- What follows the first `../`. -/
def afterDots : List UInt8 → Option (List UInt8)
  | [] => none
  | c :: rest =>
    if [46, 46, 47] <+: c :: rest then some ((c :: rest).drop 3) else afterDots rest

def execPath (args : TokenList) : List UInt8 :=
  (cmdArgv args 1).map fun c => if c = backslash then 47 else c

/-- The text that `Cmd_Exec_f` inserts, a C string. `loadFile` is `FS_LoadFile`. -/
def execText (args : TokenList) (loadFile : List UInt8 → Option (List UInt8)) :
    Option (List UInt8) :=
  if cmdArgc args ≠ 2 then none
  else if ((afterDots (execPath args)).bind afterDots).isSome then none
  else
    match loadFile (execPath args) with
    | none => none
    | some f =>
      if f.length > commandBufferSize - 2 then none
      else if f.length = 0 then none
      else some ((f ++ [newline]).takeWhile (· ≠ 0))

def cmdExecF (buf : Sizebuf) (args : TokenList) (loadFile : List UInt8 → Option (List UInt8)) :
    Except Stop Sizebuf :=
  match execText args loadFile with
  | none => .ok buf
  | some text => cbufInsertText buf text

/-- A file that is accepted fits into the empty buffer. -/
theorem execText_length {args : TokenList} {loadFile : List UInt8 → Option (List UInt8)}
    {text : List UInt8} (h : execText args loadFile = some text) :
    text.length < commandBufferSize := by
  simp only [execText] at h
  split at h
  · exact absurd h (by simp)
  split at h
  · exact absurd h (by simp)
  split at h
  · exact absurd h (by simp)
  split at h
  · exact absurd h (by simp)
  split at h
  · exact absurd h (by simp)
  · next f _ short _ =>
    have hcut := (List.takeWhile_prefix (l := f ++ [newline]) fun c => decide (c ≠ 0)).length_le
    rw [Option.some.inj h, List.length_append, List.length_singleton] at hcut
    simp only [commandBufferSize] at short ⊢
    omega

/-! ## When the text is inserted -/

theorem added_of_long {text : List UInt8} (long : text.length ≥ commandBufferSize) :
    added [] text = [] := by
  have hlong : ([] : List UInt8).length + text.length ≥ commandBufferSize := by
    rwa [List.length_nil, Nat.zero_add]
  rw [added, if_pos hlong]

theorem added_of_short {text : List UInt8} (short : ¬text.length ≥ commandBufferSize) :
    added [] text = text := by
  have hshort : ¬([] : List UInt8).length + text.length ≥ commandBufferSize := by
    rwa [List.length_nil, Nat.zero_add]
  rw [added, if_neg hshort, List.nil_append]

theorem inserted_long {pending : Pending} {text : List UInt8}
    (long : text.length ≥ commandBufferSize) :
    cbufInsertText pending.buffer text = .ok pending.buffer := by
  rw [Pending.buffer, cbufInsertText_added pending.property, added_of_long long, List.nil_append,
    if_pos pending.property]

theorem inserted_together {pending : Pending} {text : List UInt8}
    (short : ¬text.length ≥ commandBufferSize)
    (together : text.length + pending.val.length ≤ commandBufferSize) :
    cbufInsertText pending.buffer text = .ok (commandBuffer (text ++ pending.val)) := by
  rw [Pending.buffer, cbufInsertText_added pending.property, added_of_short short, if_pos]
  rwa [List.length_append]

theorem inserted_overflow {pending : Pending} {text : List UInt8}
    (short : ¬text.length ≥ commandBufferSize)
    (more : ¬text.length + pending.val.length ≤ commandBufferSize) :
    cbufInsertText pending.buffer text = .error .overflow := by
  rw [Pending.buffer, cbufInsertText_added pending.property, added_of_short short, if_neg]
  rwa [List.length_append]

theorem not_inserted_overflow (pending : Pending) (text : List UInt8) :
    ¬Inserted pending text (.error .overflow) := by
  rintro (inserted | ⟨_, unchanged⟩)
  · exact absurd inserted (by simp)
  · exact absurd unchanged (by simp)

/-- `Cbuf_InsertText` puts the text in front or leaves the buffer as it was unless the text fits
the empty buffer and not this one, and `exec` is fatal for the files whose text is so. -/
theorem cbufInsertText_inserts_iff (pending : Pending) :
    (∀ text, Inserted pending text (cbufInsertText pending.buffer text) ↔ Safe pending text) ∧
    ∀ args loadFile, cmdExecF pending.buffer args loadFile ≠ .error .overflow ↔
      ∀ text, execText args loadFile = some text →
        text.length + pending.val.length ≤ commandBufferSize := by
  refine ⟨?_, ?_⟩
  · intro text
    by_cases long : text.length ≥ commandBufferSize
    · rw [inserted_long long]
      exact iff_of_true (.inr ⟨Nat.le_add_right_of_le long, rfl⟩) (.inl long)
    by_cases together : text.length + pending.val.length ≤ commandBufferSize
    · rw [inserted_together long together]
      exact iff_of_true (.inl rfl) (.inr together)
    · rw [inserted_overflow long together]
      exact iff_of_false (not_inserted_overflow pending text) (not_or.mpr ⟨long, together⟩)
  · intro args loadFile
    cases htext : execText args loadFile with
    | none =>
      simp [cmdExecF, htext]
    | some text =>
      have short := Nat.not_le.mpr (execText_length htext)
      simp only [cmdExecF, htext, Option.some.injEq, forall_eq']
      by_cases together : text.length + pending.val.length ≤ commandBufferSize
      · rw [inserted_together short together]
        exact iff_of_true (by simp) together
      · rw [inserted_overflow short together]
        exact iff_of_false (by simp) together

/-- Two pending bytes and the text of the longest file that is accepted. -/
theorem longest_file_overflows :
    ¬Inserted ⟨[119, 10], by decide⟩ (List.replicate 65535 119)
      (cbufInsertText (commandBuffer [119, 10]) (List.replicate 65535 119)) := by
  have hlength : (List.replicate 65535 (119 : UInt8)).length = 65535 := List.length_replicate
  have hoverflow := @inserted_overflow ⟨[119, 10], by decide⟩ (List.replicate 65535 119)
    (by rw [hlength]; decide) (by rw [hlength]; decide)
  rw [Pending.buffer] at hoverflow
  rw [hoverflow]
  exact not_inserted_overflow _ _

end InsertText

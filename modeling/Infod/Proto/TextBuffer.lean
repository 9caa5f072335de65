import Infod.Proto.OneMessage

/-!
# Text output through the buffer

Whether the writes of a line stay within the 4096 bytes of `outbuf`, and reach the network
as they were made. They do, as long as no write of several bytes comes to the end of
the buffer: only `outbuf_putc` looks whether it is full.
-/

namespace Infod

/-- The calls of `outbuf_putc` and `proto_outbuf` that `output_text` comes to. -/
def textCalls (msg : UInt8) (fmt : List UInt8) (ap : List Arg) : List Put :=
  match outputText msg fmt ap with
  | .ok puts => puts
  | .error (.error puts _) => puts
  | .error _ => []

/-- After each call of `output_text` to the buffer there are at most 4096 bytes in it, and
none has been stored behind it; and when all goes well the network has got what was
written. -/
structure Buffered {α : Type} (up : Upcalls α) (log : α → List UInt8) (app : α) (msg : UInt8)
    (fmt : List UInt8) (ap : List Arg) : Prop where
  bounded : ∀ front, front <+: textCalls msg fmt ap →
    ∃ ret out, runPuts up front ⟨app, []⟩ = .ok (ret, out) ∧ out.bytes.length ≤ outbufSize
  transparent : ∃ ret app', sendText up app msg fmt ap = .ok (ret, app') ∧
    (ret ≠ -1 → log app' = log app ++ (textCalls msg fmt ap).flatMap Put.bytes)

/-- The writes of a line: the word, the fields, and the line end or what precedes a refusal. -/
def lineWrites (msg : UInt8) (cs : List Conversion) (ending : Ending) : List Put :=
  match cmdtab.find? fun entry => entry.id == msg with
  | none => []
  | some entry =>
    match textLine entry.fmt false cs ending with
    | (fields, none) => .outbuf entry.word :: fields.flatMap Field.puts ++ [.outbuf crlf]
    | (fields, some extra) => .outbuf entry.word :: fields.flatMap Field.puts ++ extra

section Calls

variable (msg : UInt8) {fmt : List UInt8} {ap : List Arg} {cs : List Conversion} {ending : Ending}
  (converts : Converts fmt ap cs ending)
include converts

/-- `output_text` makes the writes of the line, or is refused after them. -/
theorem outputText_lineWrites :
    outputText msg fmt ap = .ok (lineWrites msg cs ending) ∨
      ∃ text, outputText msg fmt ap = .error (.error (lineWrites msg cs ending) text) := by
  rw [outputText, lineWrites]
  cases cmdtab.find? fun entry => entry.id == msg with
  | none => exact .inr ⟨_, rfl⟩
  | some entry =>
    dsimp only
    cases line : textLine entry.fmt false cs ending with
    | mk fields refused =>
      cases refused with
      | none => exact .inl (outputEntry_written converts line)
      | some extra => exact .inr (outputEntry_refused converts line)

theorem textCalls_eq : textCalls msg fmt ap = lineWrites msg cs ending := by
  rw [textCalls]
  rcases outputText_lineWrites msg converts with written | ⟨text, refused⟩
  · rw [written]
  · rw [refused]

omit converts in
theorem lineWrites_short (cs : List Conversion) (ending : Ending) :
    ∀ put ∈ lineWrites msg cs ending, put.bytes.length ≤ sizeofSizeT := by
  rw [lineWrites]
  cases found : cmdtab.find? fun entry => entry.id == msg with
  | none => exact List.forall_mem_nil _
  | some entry =>
    have ⟨member, _⟩ := found_id found
    dsimp only
    cases line : textLine entry.fmt false cs ending with
    | mk fields refused =>
      cases refused with
      | none => exact line_short member fields (by simp [Put.bytes, crlf, sizeofSizeT])
      | some extra =>
        obtain ⟨letters, rfl⟩ := textLine_extra line
        exact line_short member fields (spaceBefore_short letters)

end Calls

instance (puts : List Put) : Decidable (Room puts) :=
  inferInstanceAs (Decidable ((puts.foldlM Put.level 0).isSome = true))

/-- The first writes of those that have room have room. -/
theorem Room.left {front back : List Put} (room : Room (front ++ back)) : Room front := by
  rw [Room, List.foldlM_append] at room
  rw [Room]
  cases level : front.foldlM Put.level 0 with
  | none =>
    rw [level] at room
    cases room
  | some n => rfl

section Flushes

variable {α : Type} {up : Upcalls α} {log : α → List UInt8} (records : Records up log) {puts : List Put}
  (short : ∀ put ∈ puts, put.bytes.length ≤ sizeofSizeT) (room : Room puts) (app : α)
include records short room

/-- With room for them all the writes are performed, or a flush fails. -/
theorem runPuts_room : ∃ ret out, runPuts up puts ⟨app, []⟩ = .ok (ret, out) ∧
    out.bytes.length ≤ outbufSize ∧
    (ret ≠ -1 → log out.app ++ out.bytes = log app ++ puts.flatMap Put.bytes) := by
  rcases runPuts_level records short ⟨app, []⟩ (Nat.zero_le _) with
    ⟨exceeds, -, -⟩ | ⟨out, sent, -, -, ran, within, logged, parts⟩ | ⟨-, app', ran⟩
  · change puts.foldlM Put.level 0 = none at exceeds
    rw [Room, exceeds] at room
    cases room
  · refine ⟨0, out, ran, within, fun _ => ?_⟩
    rw [logged, List.append_assoc, parts, List.nil_append]
  · exact ⟨-1, _, ran, Nat.zero_le _, fun failed => absurd rfl failed⟩

/-- What a line with room for its writes comes to on the network. -/
theorem sendText_room {msg : UInt8} {fmt : List UInt8} {ap : List Arg}
    (calls : outputText msg fmt ap = .ok puts ∨ ∃ text, outputText msg fmt ap = .error (.error puts text)) :
    ∃ ret app', sendText up app msg fmt ap = .ok (ret, app') ∧
      (ret ≠ -1 → log app' = log app ++ puts.flatMap Put.bytes) := by
  obtain ⟨ret, out, ran, -, logged⟩ := runPuts_room records short room app
  rw [sendText]
  rcases calls with written | ⟨text, refused⟩
  · rw [written]
    dsimp only
    rw [ran, Except.ok_bind]
    dsimp only
    by_cases failed : ret = -1
    · rw [if_pos failed]
      exact ⟨-1, _, rfl, fun goes => absurd rfl goes⟩
    · rw [if_neg failed]
      refine ⟨_, _, rfl, fun _ => ?_⟩
      -- the final flush sends what is left
      by_cases empty : out.bytes = []
      · rw [outbufFlush, if_pos empty]
        simpa only [empty, List.append_nil] using logged failed
      · obtain ⟨ret', app', flushed, -, logged'⟩ := outbufFlush_records records out empty
        rw [flushed, logged', logged failed]
  · rw [refused]
    dsimp only
    rw [ran, Except.ok_bind]
    dsimp only
    split
    next => exact ⟨-1, _, rfl, fun goes => absurd rfl goes⟩
    next => exact ⟨-1, _, rfl, fun goes => absurd rfl goes⟩

end Flushes

/-- The buffer holds what is written, on every connection, exactly if there is room for the
writes of the line. -/
theorem text_buffer_iff (msg : UInt8) {fmt : List UInt8} {ap : List Arg} {cs : List Conversion}
    {ending : Ending} (converts : Converts fmt ap cs ending) :
    (∀ (α : Type) (up : Upcalls α) (log : α → List UInt8), Records up log → ∀ app,
      Buffered up log app msg fmt ap) ↔ Room (lineWrites msg cs ending) := by
  have calls := textCalls_eq msg converts
  have short := lineWrites_short msg cs ending
  constructor
  · intro buffered
    -- on a connection that takes everything, the writes are all performed
    obtain ⟨ret, out, ran, -⟩ := (buffered _ wire id wire_logs.records []).bounded _ (List.prefix_refl _)
    rw [calls] at ran
    rcases runPuts_level wire_logs.records short ⟨[], []⟩ (Nat.zero_le _) with
      ⟨-, -, overflowed⟩ | ⟨_, _, room, -⟩ | ⟨fails, -⟩
    · cases overflowed.symm.trans ran
    · exact room
    · exact absurd fails wire_logs.not_fails
  · intro room α up log records app
    constructor
    · rintro front ⟨back, split⟩
      rw [calls] at split
      rw [← split] at room short
      obtain ⟨ret, out, ran, within, -⟩ := runPuts_room records
        (fun put member => short put (List.mem_append_left _ member)) room.left app
      exact ⟨ret, out, ran, within⟩
    · rw [calls]
      exact sendText_room records short room app (outputText_lineWrites msg converts)

/-- A PONG with a quote in it has room. -/
theorem text_buffer_pong : Buffered wire id [] msgPong (ascii "%s") [.ptr [34, 0]] :=
  (text_buffer_iff msgPong (.str (by decide) (by decide) .done)).mpr (by decide +kernel) _ wire id wire_logs.records []

/-- Where a quote is the 4087th byte of a PONG, its escape fills the buffer, and the byte that
follows is stored behind it. -/
theorem text_buffer_overflow :
    runPuts wire (textCalls msgPong (ascii "%*s") [.int 4087, .ptr (List.replicate 4086 97 ++ [34])])
      ⟨[], []⟩ = .error .overflow := by
  have converts : Converts (ascii "%*s") [.int 4087, .ptr (List.replicate 4086 97 ++ [34])]
      [.data 4087 (List.replicate 4086 97 ++ [34])] .done := by
    refine .data 4087 (by decide) (.inl ?_) .done
    rw [List.length_append, List.length_replicate]
    decide
  rw [textCalls_eq msgPong converts]
  rcases runPuts_level wire_logs.records (lineWrites_short msgPong _ _) ⟨[], []⟩ (Nat.zero_le _) with
    ⟨-, -, overflowed⟩ | ⟨_, _, room, -⟩ | ⟨fails, -⟩
  · exact overflowed
  · exact absurd room (by decide +kernel)
  · exact absurd fails wire_logs.not_fails

end Infod

import Infod.Proto.Conversions
import Infod.Proto.Outbuf
import Infod.Lib.Span

/-!
# The text encoder on all formats

`textLine` says what the encoder of the text mode writes for the conversions of a format
until it refuses one, and `Put.level` how full the output buffer gets from it.
-/

namespace Infod

open Loop Span

/-! ### The output buffer -/

/-- How full the buffer is after a write, or `none` if it runs over. -/
def Put.level (n : Nat) : Put → Option Nat
  | .putc _ =>
    if n + 1 < outbufSize then some (n + 1) else if n + 1 = outbufSize then some 0 else none
  | .outbuf data =>
    if n ≤ sizeofSizeT then
      if n + data.length ≤ sizeofSizeT then some (n + data.length)
      else some (n + data.length - sizeofSizeT)
    else if n + data.length ≤ outbufSize then some (n + data.length)
    else none

/-- How full the buffer is after a write, or `none` if it is flushed or runs over. -/
def Put.quietLevel (n : Nat) : Put → Option Nat
  | .putc _ => if n + 1 < outbufSize then some (n + 1) else none
  | .outbuf data =>
    if n ≤ sizeofSizeT then if n + data.length ≤ sizeofSizeT then some (n + data.length) else none
    else if n + data.length ≤ outbufSize then some (n + data.length)
    else none

/-- The buffer has room for all writes. -/
def Room (puts : List Put) : Prop := (puts.foldlM Put.level 0).isSome

/-- The writes all stay in the buffer. -/
def Quiet (puts : List Put) : Prop := (puts.foldlM Put.quietLevel 0).isSome

/-- What is passed to `on_sendv` is logged, whatever comes of it. -/
structure Records {α : Type} (up : Upcalls α) (log : α → List UInt8) : Prop where
  sends : ∀ app iov, log (up.sendv app iov).2 = log app ++ iov.flatten
  reports : ∀ app tag text, log (up.errorv app tag text) = log app

theorem Logs.records {α : Type} {up : Upcalls α} {log : α → List UInt8} (logs : Logs up log) :
    Records up log := ⟨logs.sends, logs.reports⟩

section Level

variable {α : Type} {up : Upcalls α} {log : α → List UInt8}

/-- Some call of `on_sendv` returns -1. -/
def Upcalls.Fails (up : Upcalls α) : Prop := ∃ app iov, (up.sendv app iov).1 = -1

theorem Logs.not_fails (logs : Logs up log) : ¬ up.Fails :=
  fun ⟨app, iov, failed⟩ => logs.succeeds app iov failed

variable (records : Records up log)
include records

theorem outbufFlush_records (out : Outbuf α) (filled : out.bytes ≠ []) :
    ∃ ret app, outbufFlush up out = (ret, ⟨app, []⟩) ∧ (ret = -1 → up.Fails) ∧
      log app = log out.app ++ out.bytes := by
  refine ⟨(up.sendv out.app [out.bytes]).1, (up.sendv out.app [out.bytes]).2, if_neg filled,
    fun failed => ⟨_, _, failed⟩, ?_⟩
  rw [records.sends, List.flatten_singleton]

omit records in
/-- Beyond the first eight bytes all writes are small. -/
theorem protoOutbuf_small {out : Outbuf α} {data : List UInt8} (within : out.bytes.length ≤ outbufSize)
    (short : data.length ≤ sizeofSizeT)
    (small : out.bytes.length ≤ sizeofSizeT → out.bytes.length + data.length ≤ sizeofSizeT) :
    protoOutbuf up out data = (out.store data >>= fun out => .ok (0, out)) := by
  rw [outbufSize] at within
  rw [sizeofSizeT] at short small
  rw [protoOutbuf, sizeofSizeT]
  have space : data.length ≤ (2 ^ 64 + 8 - out.bytes.length) % 2 ^ 32 := by omega
  exact if_pos space

/-- A write across the eighth byte flushes the buffer. -/
theorem protoOutbuf_medium {out : Outbuf α} {data : List UInt8} (short : data.length ≤ sizeofSizeT)
    (early : out.bytes.length ≤ sizeofSizeT) (large : sizeofSizeT < out.bytes.length + data.length) :
    ∃ app, log app = log out.app ++ (out.bytes ++ data.take (sizeofSizeT - out.bytes.length)) ∧
      (protoOutbuf up out data = .ok (0, ⟨app, data.drop (sizeofSizeT - out.bytes.length)⟩) ∨
        up.Fails ∧ protoOutbuf up out data = .ok (-1, ⟨app, []⟩)) := by
  rw [sizeofSizeT] at short early large ⊢
  have space : (2 ^ 64 + 8 - out.bytes.length) % 2 ^ 32 = 8 - out.bytes.length := by omega
  have packed : (out.bytes ++ data.take (8 - out.bytes.length)).length = 8 := by
    rw [List.length_append, List.length_take]
    omega
  obtain ⟨ret, app, flushed, fails, logged⟩ := outbufFlush_records records
    { out with bytes := out.bytes ++ data.take (8 - out.bytes.length) }
    (List.length_pos_iff.mp (by rw [packed]; decide))
  refine ⟨app, logged, ?_⟩
  rw [protoOutbuf, sizeofSizeT, space]
  dsimp only
  rw [if_neg (by omega), if_neg (by rw [outbufSize]; omega),
    Outbuf.store_ok (by rw [← List.length_append, packed]; decide), Except.ok_bind, flushed]
  dsimp only
  by_cases failed : ret = -1
  · rw [if_pos failed]
    exact .inr ⟨fails failed, rfl⟩
  · rw [if_neg failed,
      Outbuf.store_ok (by rw [List.length_drop, outbufSize]; simp only [List.length_nil]; omega)]
    exact .inl rfl

/-- A short write overflows the buffer, stays in it, or flushes it, which can fail. -/
theorem runPut_level {put : Put} {out : Outbuf α} (short : put.bytes.length ≤ sizeofSizeT)
    (within : out.bytes.length ≤ outbufSize) :
    (put.level out.bytes.length = none ∧ put.quietLevel out.bytes.length = none ∧
      runPut up put out = .error .overflow) ∨
    (put.level out.bytes.length = some (out.bytes ++ put.bytes).length ∧
      put.quietLevel out.bytes.length = some (out.bytes ++ put.bytes).length ∧
      (out.bytes ++ put.bytes).length ≤ outbufSize ∧
      runPut up put out = .ok (0, { out with bytes := out.bytes ++ put.bytes })) ∨
    (put.quietLevel out.bytes.length = none ∧ ∃ app sent rest,
      put.level out.bytes.length = some rest.length ∧ rest.length ≤ outbufSize ∧ sent ≠ [] ∧
      log app = log out.app ++ sent ∧ sent ++ rest = out.bytes ++ put.bytes ∧
      ((∃ ret, ret ≠ -1 ∧ runPut up put out = .ok (ret, ⟨app, rest⟩)) ∨
        up.Fails ∧ runPut up put out = .ok (-1, ⟨app, []⟩))) := by
  cases put with
  | putc ch =>
    have length : (out.bytes ++ [ch]).length = out.bytes.length + 1 := List.length_append
    simp only [Put.level, Put.quietLevel, Put.bytes, runPut, outbufPutc, length]
    rcases Nat.lt_trichotomy (out.bytes.length + 1) outbufSize with less | full | exceeds
    · refine .inr (.inl ⟨if_pos less, if_pos less, less.le, ?_⟩)
      rw [Outbuf.store_ok (by simpa using less.le), Except.ok_bind]
      dsimp only
      rw [length, if_neg less.ne]
      rfl
    · obtain ⟨ret, app, flushed, fails, logged⟩ :=
        outbufFlush_records records { out with bytes := out.bytes ++ [ch] } (by simp)
      have ran : (out.store [ch] >>= fun out : Outbuf α => .ok
          (if out.bytes.length = outbufSize then outbufFlush up out else (0, out))) =
          (.ok (ret, ⟨app, []⟩) : Except ProtoFault (Int × Outbuf α)) := by
        rw [Outbuf.store_ok (by simpa using full.le), Except.ok_bind]
        dsimp only
        rw [length, if_pos full]
        exact congrArg _ flushed
      refine .inr (.inr ⟨if_neg (by omega), app, out.bytes ++ [ch], [], ?_, Nat.zero_le _, by simp,
        logged, List.append_nil _, ?_⟩)
      · rw [if_neg (by omega), if_pos full, List.length_nil]
      · by_cases failed : ret = -1
        · exact .inr ⟨fails failed, failed ▸ ran⟩
        · exact .inl ⟨ret, failed, ran⟩
    · refine .inl ⟨by rw [if_neg (by omega), if_neg (by omega)], if_neg (by omega), ?_⟩
      rw [Outbuf.store, List.length_singleton, if_pos exceeds]
      rfl
  | outbuf data =>
    rw [Put.bytes] at short
    have length : (out.bytes ++ data).length = out.bytes.length + data.length := List.length_append
    simp only [Put.level, Put.quietLevel, Put.bytes, runPut, length]
    by_cases early : out.bytes.length ≤ sizeofSizeT
    · rw [if_pos early, if_pos early]
      by_cases fits : out.bytes.length + data.length ≤ sizeofSizeT
      · have room : out.bytes.length + data.length ≤ outbufSize := Nat.le_trans fits (by decide)
        rw [if_pos fits, if_pos fits]
        refine .inr (.inl ⟨rfl, rfl, room, ?_⟩)
        rw [protoOutbuf_small within short fun _ => fits, Outbuf.store_ok room]
        rfl
      · obtain ⟨app, logged, ran⟩ := protoOutbuf_medium records short early (Nat.lt_of_not_le fits)
        rw [if_neg fits, if_neg fits]
        have size : (data.drop (sizeofSizeT - out.bytes.length)).length =
            out.bytes.length + data.length - sizeofSizeT := by
          rw [List.length_drop]
          omega
        refine .inr (.inr ⟨rfl, app, _, _, by rw [size], ?_, ?_, logged, ?_,
          ran.imp (fun ran => ⟨0, by decide, ran⟩) id⟩)
        · rw [size]
          exact Nat.le_trans (show _ ≤ sizeofSizeT by omega) (by decide)
        · rw [← List.length_pos_iff, List.length_append, List.length_take]
          rw [sizeofSizeT] at early fits ⊢
          omega
        · rw [List.append_assoc, List.take_append_drop]
    · rw [if_neg early, if_neg early, protoOutbuf_small within short fun small => absurd small early]
      by_cases fits : out.bytes.length + data.length ≤ outbufSize
      · rw [if_pos fits, Outbuf.store_ok fits]
        exact .inr (.inl ⟨rfl, rfl, fits, rfl⟩)
      · rw [if_neg fits, Outbuf.store, if_pos (Nat.lt_of_not_le fits)]
        exact .inl ⟨rfl, rfl, rfl⟩

/-- Writes overflow the buffer, or what is sent and what is left in it are the bytes written;
unless a flush has failed before. -/
theorem runPuts_level {puts : List Put} (short : ∀ put ∈ puts, put.bytes.length ≤ sizeofSizeT)
    (out : Outbuf α) (within : out.bytes.length ≤ outbufSize) :
    (puts.foldlM Put.level out.bytes.length = none ∧ puts.foldlM Put.quietLevel out.bytes.length = none ∧
      runPuts up puts out = .error .overflow) ∨
    (∃ out' sent, (puts.foldlM Put.level out.bytes.length).isSome ∧
      ((puts.foldlM Put.quietLevel out.bytes.length).isSome ↔ sent = []) ∧
      runPuts up puts out = .ok (0, out') ∧ out'.bytes.length ≤ outbufSize ∧
      log out'.app = log out.app ++ sent ∧ sent ++ out'.bytes = out.bytes ++ puts.flatMap Put.bytes) ∨
    up.Fails ∧ ∃ app, runPuts up puts out = .ok (-1, ⟨app, []⟩) := by
  induction puts generalizing out with
  | nil =>
    exact .inr (.inl ⟨out, [], rfl, ⟨fun _ => rfl, fun _ => rfl⟩, rfl, within, (List.append_nil _).symm,
      by simp⟩)
  | cons put puts ih =>
    obtain ⟨one, others⟩ := List.forall_mem_cons.mp short
    rw [runPuts_cons, List.foldlM_cons, List.foldlM_cons, List.flatMap_cons]
    rcases runPut_level records one within with ⟨exceeds, notQuiet, ran⟩ | ⟨level, quiet, within', ran⟩ |
      ⟨notQuiet, app, sent, rest, level, within', some_, logged, parts, ⟨ret, goes, ran⟩ | ⟨fails, ran⟩⟩
    · rw [exceeds, notQuiet, ran]
      exact .inl ⟨rfl, rfl, rfl⟩
    · rw [level, quiet, ran]
      have rest := ih others { out with bytes := out.bytes ++ put.bytes } within'
      rwa [List.append_assoc] at rest
    · rw [level, notQuiet, ran, Except.ok_bind]
      dsimp only
      rw [if_neg goes]
      rcases ih others ⟨app, rest⟩ within' with ⟨exceeds, -, ran'⟩ |
        ⟨out', sent', room, -, ran', within'', logged', parts'⟩ | failed
      · exact .inl ⟨exceeds, rfl, ran'⟩
      · refine .inr (.inl ⟨out', sent ++ sent', room, ⟨nofun, fun empty => ?_⟩, ran', within'', ?_, ?_⟩)
        · exact absurd (List.append_eq_nil_iff.mp empty).1 some_
        · rw [logged', logged, List.append_assoc]
        · rw [List.append_assoc, parts', ← List.append_assoc, parts, List.append_assoc]
      · exact .inr (.inr failed)
    · rw [ran, Except.ok_bind]
      exact .inr (.inr ⟨fails, app, rfl⟩)

end Level

/-! ### Lines of text -/

/-- What is put out before the argument for a letter is looked at. -/
def spaceBefore : List TFmt → List Put
  | .zero :: _ => []
  | _ => [.putc (chr ' ')]

/-- Data with a NUL as a key and its value. -/
def keyValueLine (len : Nat) (mem : List UInt8) : List Field × Option (List Put) :=
  let key := cstr mem
  if 0xffff < key.length then ([], some [.putc (chr ' ')])
  else if 0xffff < len - (key.length + 1) then ([.text key], some [.putc (chr ' ')])
  else ([.text key, .text ((mem.drop (key.length + 1)).take (len - (key.length + 1)))], none)

def addField (field : Field) (line : List Field × Option (List Put)) : List Field × Option (List Put) :=
  (field :: line.1, line.2)

/-- What is written for a conversion, and with the rest of the entry's format for those that
follow. -/
def convert (letters : List TFmt) (c : Conversion) (last : Prop) [Decidable last]
    (more : List TFmt → List Field × Option (List Put)) : List Field × Option (List Put) :=
  match letters, c with
  | .i :: tfmt, .byte value => addField (.int (lowByte value)) (more tfmt)
  | .zero :: tfmt, .byte value => if value = 0 then more tfmt else ([], some [])
  | .t :: tfmt, .str mem =>
    -- the length is kept in an int
    let len := (cstr mem).length % 2 ^ 32
    if 0xffff < len then ([], some [.putc (chr ' ')]) else addField (.text (mem.take len)) (more tfmt)
  | .t :: tfmt, .data len mem =>
    if tfmt = [.bar, .zero, .t] ∧ last ∧ (0 : UInt8) ∈ mem.take len then keyValueLine len mem
    else if 0xffff < len then ([], some [.putc (chr ' ')])
    else addField (.text (mem.take len)) (more tfmt)
  | _, _ => ([], some (spaceBefore letters))

/-- The fields that are written for the conversions of a format; and if not all of it is
accepted, what else is put out before it is refused. -/
def textLine : List TFmt → Bool → List Conversion → Ending → List Field × Option (List Put)
  | tfmt, optional, [], .done =>
    ([], if optional ∨ tfmt = [] ∨ tfmt.head? = some .bar then none else some [])
  | _, _, [], .char => ([], some [])
  | tfmt, _, [], .conversion | tfmt, _, [], .star =>
    ([], some (spaceBefore (tfmt.dropWhile (· = .bar))))
  | tfmt, optional, c :: cs, ending =>
    convert (tfmt.dropWhile (· = .bar)) c (cs.isEmpty ∧ ending = .done) fun rest =>
      textLine rest (optional || tfmt.head? = some .bar) cs ending

/-- The loop of the encoder writes a line, or stops with what it has put out. -/
def Emits (puts : List Put) (line : List Field × Option (List Put))
    (looped : Except OutputStop Encoding) : Prop :=
  match line with
  | (fields, none) => ∃ e, looped = .ok e ∧ e.puts = puts ++ fields.flatMap Field.puts ∧
      ¬ (!e.optional ∧ e.tfmt ≠ [] ∧ e.tfmt.head? ≠ some .bar)
  | (fields, some extra) =>
      (∃ text, looped = .error (.error (puts ++ fields.flatMap Field.puts ++ extra) text)) ∨
      ∃ e, looped = .ok e ∧ e.puts = puts ++ fields.flatMap Field.puts ++ extra ∧
        (!e.optional ∧ e.tfmt ≠ [] ∧ e.tfmt.head? ≠ some .bar)

section Emits

variable {puts extra : List Put} {line : List Field × Option (List Put)}
  {looped : Except OutputStop Encoding}

theorem Emits.field {field : Field} (emits : Emits (puts ++ field.puts) line looped) :
    Emits puts (addField field line) looped := by
  obtain ⟨fields, refused⟩ := line
  cases refused <;> simpa only [Emits, addField, List.append_assoc, List.flatMap_cons] using emits

theorem Emits.stops {text : List UInt8} (stopped : looped = .error (.error (puts ++ extra) text)) :
    Emits puts ([], some extra) looped := by
  refine .inl ⟨text, ?_⟩
  rw [stopped, List.flatMap_nil, List.append_nil]

variable {entry : CmdEntry} {ofmt fmt : List UInt8} {tfmt rest : List TFmt} {optional : Bool} {ap : List Arg}

theorem outputNext_none (none_ : tfmt.dropWhile (· = .bar) = []) :
    ∃ text, outputNext entry ofmt ⟨chr '%' :: fmt, tfmt, optional, ap, puts⟩ =
      .error (.error (puts ++ [.putc (chr ' ')]) text) := by
  rw [outputNext]
  dsimp only
  rw [if_neg (by decide), if_neg (by decide), none_]
  exact ⟨_, rfl⟩

theorem outputNext_int (letter : tfmt.dropWhile (· = .bar) = .i :: rest) :
    outputNext entry ofmt ⟨chr '%' :: fmt, tfmt, optional, ap, puts⟩ =
      outputInt entry ofmt (fmt.headD 0)
        ⟨fmt.tail, rest, optional || tfmt.head? = some .bar, ap, puts ++ [.putc (chr ' ')]⟩ := by
  rw [outputNext]
  dsimp only
  rw [if_neg (by decide), if_neg (by decide), letter]

theorem outputNext_zero (letter : tfmt.dropWhile (· = .bar) = .zero :: rest) :
    outputNext entry ofmt ⟨chr '%' :: fmt, tfmt, optional, ap, puts⟩ =
      outputZero entry ofmt (fmt.headD 0)
        ⟨fmt.tail, rest, optional || tfmt.head? = some .bar, ap, puts⟩ := by
  rw [outputNext]
  dsimp only
  rw [if_neg (by decide), if_neg (by decide), letter]

theorem outputNext_str (letter : tfmt.dropWhile (· = .bar) = .t :: rest) :
    outputNext entry ofmt ⟨chr '%' :: fmt, tfmt, optional, ap, puts⟩ =
      outputStr entry ofmt (fmt.headD 0)
        ⟨fmt.tail, rest, optional || tfmt.head? = some .bar, ap, puts ++ [.putc (chr ' ')]⟩ := by
  rw [outputNext]
  dsimp only
  rw [if_neg (by decide), if_neg (by decide), letter]

/-- The letters of the two formats do not go together. -/
def Mismatch (fmt : List UInt8) : List TFmt → Prop
  | [] => True
  | .t :: _ => fmt.headD 0 ≠ chr 's' ∧ (fmt.headD 0 = chr '*' → fmt.tail.headD 0 ≠ chr 's')
  | .bar :: _ => False
  | .i :: _ | .zero :: _ => fmt.headD 0 ≠ chr 'c'

theorem not_bar (tfmt rest : List TFmt) : tfmt.dropWhile (· = .bar) ≠ .bar :: rest := by
  intro letter
  have stops := stops_dropWhile (fun f : TFmt => decide (f = .bar)) tfmt
  rw [letter, stops_cons] at stops
  simp at stops

theorem Mismatch.intro (byte : fmt.headD 0 ≠ chr 'c')
    (str : fmt.headD 0 ≠ chr 's' ∧ (fmt.headD 0 = chr '*' → fmt.tail.headD 0 ≠ chr 's')) :
    Mismatch fmt (tfmt.dropWhile (· = .bar)) := by
  generalize letter : tfmt.dropWhile (· = .bar) = letters
  cases letters with
  | nil => trivial
  | cons f rest =>
    cases f with
    | i | zero => exact byte
    | t => exact str
    | bar => exact absurd letter (not_bar _ _)

theorem outputNext_mismatch (mismatch : Mismatch fmt (tfmt.dropWhile (· = .bar))) :
    ∃ text, outputNext entry ofmt ⟨chr '%' :: fmt, tfmt, optional, ap, puts⟩ =
      .error (.error (puts ++ spaceBefore (tfmt.dropWhile (· = .bar))) text) := by
  generalize letter : tfmt.dropWhile (· = .bar) = letters at mismatch ⊢
  cases letters with
  | nil => exact outputNext_none letter
  | cons f rest =>
    cases f with
    | i =>
      rw [Mismatch] at mismatch
      rw [outputNext_int letter, outputInt, if_pos mismatch]
      exact ⟨_, rfl⟩
    | zero =>
      rw [Mismatch] at mismatch
      rw [outputNext_zero letter, outputZero, if_pos mismatch, spaceBefore, List.append_nil]
      exact ⟨_, rfl⟩
    | t =>
      have other : (if fmt.headD 0 = chr '*' then fmt.tail.headD 0 else fmt.headD 0) ≠ chr 's' := by
        split
        next star => exact mismatch.2 star
        next => exact mismatch.1
      rw [outputNext_str letter, outputStr]
      dsimp only
      rw [if_pos other]
      exact ⟨_, rfl⟩
    | bar => exact mismatch.elim

theorem Converts.dropBlanks {cs : List Conversion} {ending : Ending} (converts : Converts fmt ap cs ending) :
    Converts (fmt.dropWhile (· = chr ' ')) ap cs ending ∧
      (fmt.dropWhile (· = chr ' ') = [] ↔ cs.isEmpty ∧ ending = .done) := by
  induction converts with
  | done => exact ⟨.done, by simp⟩
  | blank _ ih => simpa using ih
  | char blank percent =>
    rw [List.dropWhile_cons_of_neg (by simpa using blank)]
    exact ⟨.char blank percent, by simp⟩
  | conversion letter =>
    rw [List.dropWhile_cons_of_neg (by decide)]
    exact ⟨.conversion letter, by simp⟩
  | star letter =>
    rw [List.dropWhile_cons_of_neg (by decide)]
    exact ⟨.star letter, by simp⟩
  | byte value rest =>
    rw [List.dropWhile_cons_of_neg (by decide)]
    exact ⟨.byte value rest, by simp⟩
  | str nul object rest =>
    rw [List.dropWhile_cons_of_neg (by decide)]
    exact ⟨.str nul object rest, by simp⟩
  | data len int fits rest =>
    rw [List.dropWhile_cons_of_neg (by decide)]
    exact ⟨.data len int fits rest, by simp⟩

theorem Emits.mismatch {letters : List TFmt} (letter : tfmt.dropWhile (· = .bar) = letters)
    (mismatch : Mismatch fmt letters) (fuel : Nat) :
    Emits puts ([], some (spaceBefore letters)) (iterate (outputNext entry ofmt) (.fault .diverged)
      (fuel + 1) ⟨chr '%' :: fmt, tfmt, optional, ap, puts⟩) := by
  subst letter
  obtain ⟨text, stopped⟩ := outputNext_mismatch mismatch
  exact .stops (iterate_fails stopped _)

theorem outputTextString_large {mem : List UInt8} {value : Int} (large : 0xffff < (value % 2 ^ 32).toNat) :
    ∃ text, outputTextString puts mem value = .error (.error puts text) := by
  rw [outputTextString, if_pos large]
  exact ⟨_, rfl⟩

theorem outputTextString_writes {mem : List UInt8} {value : Int} {len : Nat}
    (same : (value % 2 ^ 32).toNat = len) (small : ¬ 0xffff < len) (fits : len ≤ mem.length) :
    outputTextString (puts ++ [.putc (chr ' ')]) mem value =
      .ok (puts ++ (Field.text (mem.take len)).puts) := by
  rw [outputTextString, same, if_neg small, if_neg (Nat.not_lt.mpr fits)]
  simp [Field.puts]

/-- A NUL in the data comes before its end. -/
theorem memchrNul_eq {len : Nat} {mem : List UInt8} (int : len < 2 ^ 31)
    (fits : len ≤ mem.length ∨ 131071 < len ∧ (0 : UInt8) ∈ mem) :
    memchrNul mem len = .ok (decide ((0 : UInt8) ∈ mem.take len)) := by
  have whole : sizeT len = len := by
    rw [sizeT]
    omega
  rw [memchrNul, whole]
  split
  next nul => rw [decide_eq_true nul]
  next noNul =>
    have inside : ¬ mem.length < len := by
      intro short
      rcases fits with fits | ⟨-, nul⟩
      · omega
      · rw [List.take_of_length_le (by omega)] at noNul
        exact noNul nul
    rw [if_neg inside, decide_eq_false noNul]

/-- Data with a NUL is written as two strings. -/
theorem keyValue_emits {len : Nat} {mem : List UInt8} (int : len < 2 ^ 31)
    (fits : len ≤ mem.length ∨ 131071 < len ∧ (0 : UInt8) ∈ mem) (nul : (0 : UInt8) ∈ mem.take len)
    {fuel : Nat} {e : Encoding}
    (ran : outputNext entry ofmt e =
      (outputTextString (puts ++ [.putc (chr ' ')]) mem (cstr mem).length >>= fun puts =>
        outputTextString (puts ++ [.putc (chr ' ')]) (mem.drop ((cstr mem).length + 1))
          (len - ((cstr mem).length + 1)) >>= fun puts => .ok (some ⟨[], [], true, ap, puts⟩))) :
    Emits puts (keyValueLine len mem)
      (iterate (outputNext entry ofmt) (.fault .diverged) (fuel + 2) e) := by
  have before : (cstr mem).length < len ∧ (cstr mem).length < mem.length := by
    have same : cstr (mem.take len) = cstr mem := by
      rw [← cstr_append_of_mem nul (mem.drop len), List.take_append_drop]
    have length := congrArg List.length (cstr_split nul)
    simp only [same, List.length_append, List.length_cons, List.length_take] at length
    omega
  have keySize : (((cstr mem).length : Int) % 2 ^ 32).toNat = (cstr mem).length := by omega
  have valueSize : (((len : Int) - ((cstr mem).length + 1)) % 2 ^ 32).toNat =
      len - ((cstr mem).length + 1) := by omega
  rw [keyValueLine]
  split
  next large =>
    obtain ⟨text, refused⟩ := @outputTextString_large (puts ++ [.putc (chr ' ')]) mem _ (keySize.symm ▸ large)
    rw [refused] at ran
    exact .stops (iterate_fails ran _)
  next small =>
    rw [outputTextString_writes keySize small before.2.le, Except.ok_bind, take_cstr] at ran
    split
    next large =>
      obtain ⟨text, refused⟩ := @outputTextString_large
        (puts ++ (Field.text (cstr mem)).puts ++ [.putc (chr ' ')]) (mem.drop ((cstr mem).length + 1)) _
        (valueSize.symm ▸ large)
      rw [refused] at ran
      refine .inl ⟨text, ?_⟩
      rw [iterate_fails ran, List.flatMap_singleton]
    next small' =>
      have room : len - ((cstr mem).length + 1) ≤ (mem.drop ((cstr mem).length + 1)).length := by
        rw [List.length_drop]
        omega
      rw [outputTextString_writes valueSize small' room, Except.ok_bind] at ran
      rw [iterate_next ran, iterate_left rfl]
      exact ⟨_, rfl, by simp, by simp⟩

/-- The induction is on the number of rounds, since blanks after `%*s` are skipped at once. -/
theorem outputNext_emits {cs : List Conversion} {ending : Ending} (converts : Converts fmt ap cs ending)
    {fuel : Nat} (rounds : fmt.length < fuel) :
    Emits puts (textLine tfmt optional cs ending)
      (iterate (outputNext entry ofmt) (.fault .diverged) fuel ⟨fmt, tfmt, optional, ap, puts⟩) := by
  induction fuel generalizing fmt ap cs ending tfmt optional puts with
  | zero => omega
  | succ fuel ih =>
    cases converts with
    | done =>
      rw [iterate_left rfl, textLine]
      by_cases complete : optional ∨ tfmt = [] ∨ tfmt.head? = some .bar
      · rw [if_pos complete]
        refine ⟨_, rfl, (List.append_nil _).symm, ?_⟩
        simp only [Bool.not_eq_true', ne_eq]
        grind
      · rw [if_neg complete]
        refine .inr ⟨_, rfl, by simp, ?_⟩
        simp only [Bool.not_eq_true', ne_eq]
        grind
    | blank rest =>
      rw [iterate_next rfl]
      exact ih rest (by simpa using rounds)
    | @char ch fmt ap blank percent =>
      have stopped : outputNext entry ofmt ⟨ch :: fmt, tfmt, optional, ap, puts⟩ =
          .error (.error (puts ++ []) (inFormat entry ofmt "unexpected '" ++ [ch] ++ ascii "' in fmt")) := by
        rw [outputNext, List.append_nil]
        dsimp only
        rw [if_neg blank, if_pos percent]
      rw [textLine]
      exact .stops (iterate_fails stopped _)
    | conversion letter =>
      rw [textLine]
      exact .mismatch rfl (.intro letter.2.2 ⟨letter.2.1, fun star => absurd star letter.1⟩) fuel
    | star letter =>
      rw [textLine]
      refine .mismatch rfl (.intro ?_ ⟨?_, ?_⟩) fuel
      · exact (by decide : chr '*' ≠ chr 'c')
      · exact (by decide : chr '*' ≠ chr 's')
      · exact fun _ => letter
    | @byte fmt ap cs _ value rest =>
      rw [textLine]
      have shorter : fmt.length < fuel := by
        simp only [List.length_cons] at rounds
        omega
      generalize letter : tfmt.dropWhile (· = .bar) = letters
      cases letters with
      | nil => exact .mismatch letter trivial fuel
      | cons f tfmt' =>
        cases f with
        | i =>
          have moved : outputNext entry ofmt ⟨chr '%' :: chr 'c' :: fmt, tfmt, optional, .int value :: ap, puts⟩ =
              .ok (some ⟨fmt, tfmt', optional || tfmt.head? = some .bar, ap,
                puts ++ (Field.int (lowByte value)).puts⟩) := by
            rw [outputNext_int letter, show puts ++ (Field.int (lowByte value)).puts = puts ++
              [.putc (chr ' ')] ++ [.outbuf (decimal (lowByte value).toNat)] by simp [Field.puts]]
            rfl
          rw [iterate_next moved]
          exact (ih rest shorter).field
        | zero =>
          rw [convert]
          split
          next zero =>
            have moved : outputNext entry ofmt ⟨chr '%' :: chr 'c' :: fmt, tfmt, optional, .int value :: ap, puts⟩ =
                .ok (some ⟨fmt, tfmt', optional || tfmt.head? = some .bar, ap, puts⟩) := by
              rw [outputNext_zero letter, zero]
              rfl
            rw [iterate_next moved]
            exact ih rest shorter
          next other =>
            have stopped : outputNext entry ofmt ⟨chr '%' :: chr 'c' :: fmt, tfmt, optional, .int value :: ap, puts⟩ =
                .error (.error (puts ++ [])
                  (inFormat entry ofmt "expected 0 for %c, got " ++ ascii (toString value))) := by
              rw [outputNext_zero letter, List.append_nil]
              exact if_pos other
            exact .stops (iterate_fails stopped fuel)
        | t =>
          refine .mismatch letter ⟨?_, fun star => absurd star ?_⟩ fuel
          · exact (by decide : chr 'c' ≠ chr 's')
          · exact (by decide : chr 'c' ≠ chr '*')
        | bar => exact absurd letter (not_bar _ _)
    | @str fmt mem ap cs _ nul object rest =>
      rw [textLine]
      have shorter : fmt.length < fuel := by
        simp only [List.length_cons] at rounds
        omega
      generalize letter : tfmt.dropWhile (· = .bar) = letters
      cases letters with
      | nil => exact .mismatch letter trivial fuel
      | cons f tfmt' =>
        cases f with
        | i | zero =>
          refine .mismatch letter ?_ fuel
          exact (by decide : chr 's' ≠ chr 'c')
        | t =>
          have ran : outputNext entry ofmt ⟨chr '%' :: chr 's' :: fmt, tfmt, optional, .ptr mem :: ap, puts⟩ =
              (outputTextString (puts ++ [.putc (chr ' ')]) mem (cstr mem).length >>= fun puts =>
                .ok (some ⟨fmt, tfmt', optional || tfmt.head? = some .bar, ap, puts⟩)) := by
            rw [outputNext_str letter]
            change (strlen mem >>= _) = _
            rw [strlen, if_pos nul]
            rfl
          have same : (((cstr mem).length : Int) % 2 ^ 32).toNat = (cstr mem).length % 2 ^ 32 := by omega
          rw [convert]
          split
          next large =>
            obtain ⟨text, refused⟩ := @outputTextString_large (puts ++ [.putc (chr ' ')]) mem _ (same.symm ▸ large)
            rw [refused] at ran
            exact .stops (iterate_fails ran fuel)
          next small =>
            have inside : (cstr mem).length ≤ mem.length := (List.takeWhile_prefix _).length_le
            rw [outputTextString_writes same small (Nat.le_trans (Nat.mod_le _ _) inside)] at ran
            rw [iterate_next ran]
            exact (ih rest shorter).field
        | bar => exact absurd letter (not_bar _ _)
    | @data fmt mem ap cs _ len int fits rest =>
      rw [textLine]
      obtain ⟨rest', ended⟩ := rest.dropBlanks
      have shorter : (fmt.dropWhile (· = chr ' ')).length < fuel := by
        have := (List.dropWhile_suffix (l := fmt) (· = chr ' ')).length_le
        simp only [List.length_cons] at rounds
        omega
      generalize letter : tfmt.dropWhile (· = .bar) = letters
      cases letters with
      | nil => exact .mismatch letter trivial fuel
      | cons f tfmt' =>
        cases f with
        | i | zero =>
          refine .mismatch letter ?_ fuel
          exact (by decide : chr '*' ≠ chr 'c')
        | t =>
          have ran : outputNext entry ofmt
              ⟨chr '%' :: chr '*' :: chr 's' :: fmt, tfmt, optional, .int len :: .ptr mem :: ap, puts⟩ =
              ((if tfmt' = [.bar, .zero, .t] ∧ fmt.dropWhile (· = chr ' ') = [] then memchrNul mem len
                else .ok false) >>= fun split =>
                if split then
                  outputTextString (puts ++ [.putc (chr ' ')]) mem (cstr mem).length >>= fun puts =>
                    outputTextString (puts ++ [.putc (chr ' ')]) (mem.drop ((cstr mem).length + 1))
                      (len - ((cstr mem).length + 1)) >>= fun puts =>
                        .ok (some ⟨fmt.dropWhile (· = chr ' '), [], true, ap, puts⟩)
                else
                  outputTextString (puts ++ [.putc (chr ' ')]) mem len >>= fun puts =>
                    .ok (some ⟨fmt.dropWhile (· = chr ' '), tfmt', optional || tfmt.head? = some .bar, ap,
                      puts⟩)) := by
            rw [outputNext_str letter]
            rfl
          rw [memchrNul_eq int fits] at ran
          rw [convert]
          by_cases split : tfmt' = [.bar, .zero, .t] ∧ (cs.isEmpty ∧ ending = .done) ∧ (0 : UInt8) ∈ mem.take len
          · rw [if_pos split]
            rw [if_pos ⟨split.1, ended.mpr split.2.1⟩, decide_eq_true split.2.2, Except.ok_bind, if_pos rfl,
              ended.mpr split.2.1] at ran
            obtain ⟨fuel, rfl⟩ : ∃ n, fuel = n + 1 := ⟨fuel - 1, by omega⟩
            exact keyValue_emits int fits split.2.2 ran
          · have kept : (if tfmt' = [.bar, .zero, .t] ∧ fmt.dropWhile (· = chr ' ') = [] then
                Except.ok (decide ((0 : UInt8) ∈ mem.take len)) else .ok false) =
                (.ok false : Except OutputStop Bool) := by
              split
              next only =>
                rw [decide_eq_false fun nul => split ⟨only.1, ended.mp only.2, nul⟩]
              next => rfl
            have same : ((len : Int) % 2 ^ 32).toNat = len := by omega
            rw [kept, Except.ok_bind, if_neg (by decide)] at ran
            rw [if_neg split]
            split
            next large =>
              obtain ⟨text, refused⟩ := @outputTextString_large (puts ++ [.putc (chr ' ')]) mem _ (same.symm ▸ large)
              rw [refused] at ran
              exact .stops (iterate_fails ran fuel)
            next small =>
              rw [outputTextString_writes same small (by omega)] at ran
              rw [iterate_next ran]
              exact (ih rest' shorter).field
        | bar => exact absurd letter (not_bar _ _)

end Emits

section Entry

variable {entry : CmdEntry} {fmt : List UInt8} {ap : List Arg} {cs : List Conversion} {ending : Ending}
  (converts : Converts fmt ap cs ending) {fields : List Field} {extra : List Put}
include converts

theorem outputEntry_written (line : textLine entry.fmt false cs ending = (fields, none)) :
    outputEntry entry fmt ap = .ok (.outbuf entry.word :: fields.flatMap Field.puts ++ [.outbuf crlf]) := by
  have emits := @outputNext_emits [.outbuf entry.word] entry fmt fmt entry.fmt false ap cs ending converts
    (fmt.length + 1) (Nat.lt_succ_self _)
  rw [line] at emits
  obtain ⟨e, looped, puts, complete⟩ := emits
  rw [outputEntry, looped, Except.ok_bind, if_neg complete, puts]
  rfl

theorem outputEntry_refused (line : textLine entry.fmt false cs ending = (fields, some extra)) :
    ∃ text, outputEntry entry fmt ap =
      .error (.error (.outbuf entry.word :: fields.flatMap Field.puts ++ extra) text) := by
  have emits := @outputNext_emits [.outbuf entry.word] entry fmt fmt entry.fmt false ap cs ending converts
    (fmt.length + 1) (Nat.lt_succ_self _)
  rw [line] at emits
  rcases emits with ⟨text, stopped⟩ | ⟨e, looped, puts, incomplete⟩
  · rw [outputEntry, stopped]
    exact ⟨text, rfl⟩
  · rw [outputEntry, looped, Except.ok_bind, if_pos incomplete, puts]
    exact ⟨_, rfl⟩

end Entry

end Infod

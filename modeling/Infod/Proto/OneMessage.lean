import Infod.Proto.TextOutput
import Infod.Proto.TextParser

/-!
# One message or nothing

What `proto_output` hands to `on_sendv`, in all modes and for all formats: a complete message
of the mode, nothing at all, or in some cases something else.
-/

namespace Infod

open Span

/-! ### Lines of the protocol -/

/-- A line that is written has fields of the entry's format. -/
theorem textLine_packs {tfmt : List TFmt} {optional : Bool} {cs : List Conversion} {ending : Ending}
    {fields : List Field} (zeroed : zeroOptional optional tfmt = true)
    (line : textLine tfmt optional cs ending = (fields, none)) : ∃ data, Packs optional tfmt fields data := by
  induction cs generalizing tfmt optional fields with
  | nil =>
    cases ending with
    | done =>
      rw [textLine, Prod.mk.injEq] at line
      obtain ⟨rfl, complete⟩ := line
      split at complete
      next accepted =>
        rcases accepted with inOptional | ended | bar
        · exact ⟨[], inOptional ▸ .omitted⟩
        · exact ⟨[], ended ▸ .done⟩
        · obtain ⟨rest, rfl⟩ := List.head?_eq_some_iff.mp bar
          exact ⟨[], .bar .omitted⟩
      next => cases complete
    | char | conversion | star => cases line
  | cons c cs ih =>
    suffices ∃ data, Packs (optional || tfmt.head? = some .bar) (tfmt.dropWhile (· = .bar)) fields data from
      this.imp fun data packs => packs.dropBars
    rw [textLine] at line
    have zeroed' := zeroOptional_dropBars zeroed
    generalize tfmt.dropWhile (· = .bar) = letters at line zeroed' ⊢
    generalize (optional || tfmt.head? = some .bar) = optional' at line zeroed' ⊢
    have more (packed : List UInt8) {letter : TFmt} {field : Field} {rest : List TFmt}
        (packs : ∀ {fields data}, Packs optional' rest fields data →
          Packs optional' (letter :: rest) (field :: fields) (packed ++ data))
        (kept : zeroOptional optional' rest = true)
        (line : addField field (textLine rest optional' cs ending) = (fields, none)) :
        ∃ data, Packs optional' (letter :: rest) fields data := by
      rw [addField, Prod.mk.injEq] at line
      obtain ⟨rfl, accepted⟩ := line
      obtain ⟨data, packs'⟩ := ih kept (Prod.ext rfl accepted)
      exact ⟨_, packs packs'⟩
    cases c with
    | byte value =>
      rcases letters with _ | ⟨_ | _ | _ | _, rest⟩
      case cons.i => exact more [lowByte value] (.int _) zeroed' line
      case cons.zero =>
        rw [convert] at line
        rw [zeroOptional, Bool.and_eq_true] at zeroed'
        split at line
        next =>
          obtain ⟨data, packs⟩ := ih zeroed'.2 line
          cases fields with
          | nil =>
            rw [zeroed'.1]
            exact ⟨[], .omitted⟩
          | cons field fields => exact ⟨_, .zero packs⟩
        next => cases line
      all_goals cases line
    | str mem =>
      rcases letters with _ | ⟨_ | _ | _ | _, rest⟩
      case cons.t =>
        rw [convert] at line
        split at line
        next => cases line
        next => exact more _ (.text _) zeroed' line
      all_goals cases line
    | data len mem =>
      rcases letters with _ | ⟨_ | _ | _ | _, rest⟩
      case cons.t =>
        rw [convert] at line
        split at line
        next split =>
          rw [split.1]
          rw [keyValueLine] at line
          split at line
          next => cases line
          next =>
            split at line
            next => cases line
            next =>
              cases line
              exact ⟨_, .text _ (.bar (.zero (.text _ .done)))⟩
        next =>
          split at line
          next => cases line
          next => exact more _ (.text _) zeroed' line
      all_goals cases line

theorem quoted_reads (bytes : List UInt8) : Quoted (quoted bytes) bytes := by
  induction bytes with
  | nil => exact .done
  | cons ch bytes ih =>
    rw [show quoted (ch :: bytes) = (quoteChar ch).bytes ++ quoted bytes from rfl, quoteChar]
    split
    next special =>
      have all : ∀ ch : UInt8, ch = 10 ∨ ch = 13 ∨ ch = chr '"' ∨ ch = chr '\\' ∨ ch = 0 →
          (isOctal (chr '0' ||| (ch >>> 6 &&& 7)) ∧ isOctal (chr '0' ||| (ch >>> 3 &&& 7)) ∧
            isOctal (chr '0' ||| (ch >>> 0 &&& 7))) ∧
          octalByte (chr '0' ||| (ch >>> 6 &&& 7)) (chr '0' ||| (ch >>> 3 &&& 7))
            (chr '0' ||| (ch >>> 0 &&& 7)) = ch := by
        rintro ch (rfl | rfl | rfl | rfl | rfl) <;> decide
      obtain ⟨octal, value⟩ := all ch special
      have escaped := Quoted.octal octal ih
      rwa [value] at escaped
    next plain =>
      simp only [not_or] at plain
      exact .plain plain.2.2.1 plain.2.2.2.1 ih

/-- The text of fields, each after a space. -/
def fieldsText (fields : List Field) : List UInt8 := fields.flatMap fun field => chr ' ' :: field.render

/-- Fields that are written are arguments of the protocol, without a flaw. -/
theorem Packs.args {optional : Bool} {fmt : List TFmt} {fields : List Field} {data : List UInt8}
    (packs : Packs optional fmt fields data) : Args false optional fmt (fieldsText fields) data := by
  have blank : Blank [chr ' '] := by simp [Blank]
  induction packs with
  | done => exact .done (by simp [Blank, fieldsText]) (.inr rfl)
  | omitted => exact .done (by simp [Blank, fieldsText]) (.inl rfl)
  | bar _ ih => exact .bar ih
  | @int optional fmt fields data value packs ih =>
    obtain ⟨ch, digits, eq, decimal, valued⟩ := decimal_byte value
    have ends : Stops isDigit (fieldsText fields) := by
      cases fields with
      | nil => exact stops_nil
      | cons field fields => exact stops_cons.mpr (by decide)
    have small : decValue 0 (ch :: digits) ≤ 255 := by
      rw [valued]
      exact Nat.le_of_lt_succ value.toNat_lt
    have byte : (decValue 0 (ch :: digits)).toUInt8 = value := by
      rw [valued]
      exact UInt8.ofNat_toNat
    have text : fieldsText (.int value :: fields) = [chr ' '] ++ (ch :: digits) ++ fieldsText fields := by
      simp [fieldsText, Field.render, eq]
    have args := Args.int blank (List.cons_ne_nil ch digits) decimal small ends ih
    rw [text]
    rwa [byte] at args
  | @text optional fmt fields data bytes packs ih =>
    have text : fieldsText (.text bytes :: fields) =
        [chr ' '] ++ (chr '"' :: quoted bytes ++ [chr '"']) ++ fieldsText fields := by
      simp [fieldsText, Field.render]
    rw [text]
    exact .quoted blank (quoted_reads bytes) ih
  | @zero optional fmt field fields data packs ih =>
    refine .zero (fun blank => ?_) ih
    -- the field does not begin with a space
    have inside {ch : UInt8} (member : ch ∈ field.render) : ch = chr ' ' :=
      blank ch (List.mem_flatMap.mpr ⟨field, List.mem_cons_self, List.mem_cons_of_mem _ member⟩)
    cases field with
    | int value =>
      obtain ⟨ch, digits, eq, decimal, -⟩ := decimal_byte value
      have space : ch = chr ' ' := inside (by rw [Field.render, eq]; exact List.mem_cons_self)
      have digit := decimal ch List.mem_cons_self
      rw [space] at digit
      exact absurd digit (by decide)
    | text bytes => exact absurd (inside List.mem_cons_self) (by decide)

/-- All writes are short ones. -/
theorem Field.puts_short (field : Field) : ∀ put ∈ field.puts, put.bytes.length ≤ sizeofSizeT := by
  cases field with
  | int value =>
    have digits : ∀ n < 256, (decimal n).length ≤ 8 := by decide +kernel
    simpa [Field.puts, Put.bytes, sizeofSizeT] using digits value.toNat value.toNat_lt
  | text bytes =>
    have one : ∀ ch : UInt8, (quoteChar ch).bytes.length ≤ 8 := by
      intro ch
      rw [quoteChar]
      split
      next => exact (by decide : 4 ≤ 8)
      next => exact (by decide : 1 ≤ 8)
    intro put member
    simp only [Field.puts, List.mem_append, List.mem_cons, List.mem_map, List.not_mem_nil, or_false] at member
    rcases member with (rfl | rfl | ⟨ch, -, rfl⟩) | rfl
    · exact (by decide : 1 ≤ 8)
    · exact (by decide : 1 ≤ 8)
    · exact one ch
    · exact (by decide : 1 ≤ 8)

theorem spaceBefore_short (letters : List TFmt) :
    ∀ put ∈ spaceBefore letters, put.bytes.length ≤ sizeofSizeT := by
  intro put member
  unfold spaceBefore at member
  split at member
  next => cases member
  next =>
    rw [List.mem_singleton.mp member]
    exact (by decide : 1 ≤ 8)

theorem textLine_extra {tfmt : List TFmt} {optional : Bool} {cs : List Conversion} {ending : Ending}
    {fields : List Field} {extra : List Put} (line : textLine tfmt optional cs ending = (fields, some extra)) :
    ∃ letters, extra = spaceBefore letters := by
  induction cs generalizing tfmt optional fields with
  | nil =>
    cases ending with
    | done =>
      rw [textLine, Prod.mk.injEq] at line
      obtain ⟨-, refused⟩ := line
      split at refused
      next => cases refused
      next =>
        cases refused
        exact ⟨[.zero], rfl⟩
    | char =>
      cases line
      exact ⟨[.zero], rfl⟩
    | conversion | star =>
      cases line
      exact ⟨_, rfl⟩
  | cons c cs ih =>
    have more {field : Field} {rest : List TFmt} {optional : Bool}
        (line : addField field (textLine rest optional cs ending) = (fields, some extra)) :
        ∃ letters, extra = spaceBefore letters := by
      rw [addField, Prod.mk.injEq] at line
      exact ih (Prod.ext rfl line.2)
    rw [textLine] at line
    unfold convert at line
    split at line
    next => exact more line
    next =>
      split at line
      next => exact ih line
      next =>
        cases line
        exact ⟨[.zero], rfl⟩
    next =>
      dsimp only at line
      split at line
      next =>
        cases line
        exact ⟨[], rfl⟩
      next => exact more line
    next =>
      split at line
      next =>
        rw [keyValueLine] at line
        split at line
        next =>
          cases line
          exact ⟨[], rfl⟩
        next =>
          split at line
          next =>
            cases line
            exact ⟨[], rfl⟩
          next => cases line
      next =>
        split at line
        next =>
          cases line
          exact ⟨[], rfl⟩
        next => exact more line
    next =>
      cases line
      exact ⟨_, rfl⟩

/-- A line that is written is one of the protocol. -/
theorem strict_of_packs {entry : CmdEntry} (member : entry ∈ cmdtab) (named : entry.id ≠ pseudoHelp)
    {fields : List Field} {data : List UInt8} (packs : Packs false entry.fmt fields data) :
    Strict (entry.word ++ fieldsText fields) entry.id data := by
  have words : ∀ entry ∈ cmdtab, entry.word.all isWord = true ∧ entry.word.length < 16 ∧
      (0 : UInt8) ∉ entry.word := by decide
  obtain ⟨inside, short, free⟩ := words entry member
  have apart : Stops notSpace (fieldsText fields) := by
    cases fields with
    | nil => exact stops_nil
    | cons field fields => exact stops_cons.mpr (by decide)
  have parses : Parses _ ([] ++ entry.word ++ fieldsText fields) entry.id data :=
    .command (fun _ member => (nomatch member)) (List.all_eq_true.mp inside) apart short member named
      (by rw [cstr_of_nul_free free]) packs.args
  rwa [decide_eq_false free, List.nil_append] at parses

/-- Before the end of the line there is no LF. -/
theorem not_lf {entry : CmdEntry} (member : entry ∈ cmdtab) (fields : List Field) (letters : List TFmt) :
    (10 : UInt8) ∉ (.outbuf entry.word :: fields.flatMap Field.puts ++ spaceBefore letters).flatMap Put.bytes := by
  have word := (by decide : ∀ entry ∈ cmdtab, (10 : UInt8) ∉ entry.word) entry member
  have inQuotes (ch : UInt8) : (10 : UInt8) ∉ (quoteChar ch).bytes := by
    rw [quoteChar]
    split
    next special =>
      rcases special with rfl | rfl | rfl | rfl | rfl <;> decide
    next plain =>
      intro member
      exact plain (.inl (List.mem_singleton.mp member).symm)
  have inField (field : Field) : (10 : UInt8) ∉ field.puts.flatMap Put.bytes := by
    rw [Field.puts_bytes]
    cases field with
    | int value =>
      obtain ⟨ch, digits, eq, decimal, -⟩ := decimal_byte value
      intro member
      rcases List.mem_cons.mp member with space | digit
      · exact absurd space (by decide)
      · rw [Field.render, eq] at digit
        exact absurd (decimal _ digit) (by decide)
    | text bytes =>
      intro member
      simp only [Field.render, quoted, List.mem_cons, List.mem_append, List.mem_flatMap, List.mem_map,
        List.not_mem_nil, or_false] at member
      rcases member with space | (quote | ⟨put, ⟨ch, -, rfl⟩, member⟩) | quote
      · exact absurd space (by decide)
      · exact absurd quote (by decide)
      · exact inQuotes ch member
      · exact absurd quote (by decide)
  intro member
  obtain ⟨put, given, inside⟩ := List.mem_flatMap.mp member
  rcases List.mem_append.mp given with line | space
  · rcases List.mem_cons.mp line with rfl | inFields
    · exact word inside
    · obtain ⟨field, -, inPuts⟩ := List.mem_flatMap.mp inFields
      exact inField field (List.mem_flatMap.mpr ⟨put, inPuts, inside⟩)
  · unfold spaceBefore at space
    split at space
    next => cases space
    next =>
      rw [List.mem_singleton.mp space] at inside
      exact absurd inside (by decide)

/-! ### Sending -/

section Send

variable {α : Type} {up : Upcalls α} {log : α → List UInt8} (logs : Logs up log) {msg : UInt8}
  {fmt : List UInt8} {ap : List Arg} {puts : List Put}
  (short : ∀ put ∈ puts, put.bytes.length ≤ sizeofSizeT)
include logs short

/-- A line is sent as a whole, if there is room for its writes. -/
theorem sendText_written (written : outputText msg fmt ap = .ok puts) (app : α) :
    (¬ Room puts ∧ sendText up app msg fmt ap = .error .overflow) ∨
    Room puts ∧ ∃ ret app', sendText up app msg fmt ap = .ok (ret, app') ∧
      log app' = log app ++ puts.flatMap Put.bytes := by
  rw [sendText, written]
  dsimp only
  rcases runPuts_level logs.records short ⟨app, []⟩ (Nat.zero_le _) with
    ⟨exceeds, -, ran⟩ | ⟨out, sent, room, -, ran, -, logged, parts⟩ | ⟨fails, -⟩
  · refine .inl ⟨?_, ?_⟩
    · change puts.foldlM Put.level 0 = none at exceeds
      rw [Room, exceeds]
      exact Bool.false_ne_true
    · rw [ran]
      rfl
  · refine .inr ⟨room, ?_⟩
    rw [ran, Except.ok_bind]
    dsimp only
    rw [if_neg (by decide)]
    rw [List.nil_append] at parts
    by_cases empty : out.bytes = []
    · refine ⟨0, out.app, ?_, ?_⟩
      · rw [outbufFlush, if_pos empty]
        rfl
      · rw [logged, ← parts, empty, List.append_nil]
    · obtain ⟨ret, app', flushed, -, logged'⟩ := outbufFlush_records logs.records out empty
      refine ⟨ret, app', ?_, ?_⟩
      · rw [flushed]
        rfl
      · rw [logged', logged, ← parts, List.append_assoc]
  · exact absurd fails logs.not_fails

/-- A line that is refused leaves no trace, if its writes have stayed in the buffer. -/
theorem sendText_refused {text : List UInt8} (refused : outputText msg fmt ap = .error (.error puts text))
    (app : α) :
    (¬ Quiet puts ∧ (sendText up app msg fmt ap = .error .overflow ∨
      ∃ app' sent, sendText up app msg fmt ap = .ok (-1, app') ∧ log app' = log app ++ sent ∧ sent ≠ [] ∧
        sent <+: puts.flatMap Put.bytes)) ∨
    Quiet puts ∧ ∃ app', sendText up app msg fmt ap = .ok (-1, app') ∧ log app' = log app := by
  rw [sendText, refused]
  dsimp only
  rcases runPuts_level logs.records short ⟨app, []⟩ (Nat.zero_le _) with
    ⟨-, notQuiet, ran⟩ | ⟨out, sent, -, quiet, ran, -, logged, parts⟩ | ⟨fails, -⟩
  · refine .inl ⟨?_, .inl ?_⟩
    · change puts.foldlM Put.quietLevel 0 = none at notQuiet
      rw [Quiet, notQuiet]
      exact Bool.false_ne_true
    · rw [ran]
      rfl
  · rw [ran, Except.ok_bind]
    dsimp only
    rw [if_neg (by decide)]
    by_cases none_ : sent = []
    · refine .inr ⟨quiet.mpr none_, _, rfl, ?_⟩
      rw [logs.reports, logged, none_, List.append_nil]
    · refine .inl ⟨fun still => none_ (quiet.mp still), .inr ⟨_, sent, rfl, ?_, none_, out.bytes, parts⟩⟩
      rw [logs.reports, logged]
  · exact absurd fails logs.not_fails

end Send

/-! ### One message or nothing -/

/-- A complete message of a mode. -/
def IsPdu (mode : Mode) (msg : UInt8) (bytes : List UInt8) : Prop :=
  ∃ payload : List UInt8, payload.length ≤ 65535 ∧
    match mode with
    | .unknown | .binary => bytes = frameBytes msg payload
    | .framed => bytes = msg :: payload
    | .text => ∃ line, bytes = line ++ crlf ∧
        (Strict line msg payload ∨ msg = pseudoHelp ∧ line = ascii "HELP" ∧ payload = [])

/-- A call of `proto_output` returns -1 and sends nothing, or sends one complete message. -/
def OneOrNothing {α : Type} (up : Upcalls α) (log : α → List UInt8) (mode : Mode) (app : α) (msg : UInt8)
    (fmt : List UInt8) (ap : List Arg) : Prop :=
  ∃ ret app', protoOutput up mode app msg fmt ap = .ok (ret, app') ∧
    (ret = -1 ∧ log app' = log app ∨ ∃ pdu, log app' = log app ++ pdu ∧ IsPdu mode msg pdu)

/-- The calls that are safe, by what their format and arguments are read as. -/
def Safe (mode : Mode) (msg : UInt8) (cs : List Conversion) (ending : Ending) : Prop :=
  match mode with
  | .unknown | .binary => ending = .star → 9 ≤ cs.length
  | .framed =>
    (ending = .star → 7 ≤ cs.length) ∧ (ending = .done → cs.length ≤ 7 → payloadSize cs ≤ 65535)
  | .text =>
    match cmdtab.find? fun entry => entry.id == msg with
    | none => True
    | some entry =>
      match textLine entry.fmt false cs ending with
      | (fields, none) => Room (.outbuf entry.word :: fields.flatMap Field.puts ++ [.outbuf crlf]) ∧
          ∀ data, Packs false entry.fmt fields data → data.length ≤ 65535
      | (fields, some extra) => Quiet (.outbuf entry.word :: fields.flatMap Field.puts ++ extra)

section Found

variable {msg : UInt8} {entry : CmdEntry}
  (found : (cmdtab.find? fun entry => entry.id == msg) = some entry)
include found

theorem found_id : entry ∈ cmdtab ∧ entry.id = msg :=
  ⟨List.mem_of_find?_eq_some found, by simpa using List.find?_some found⟩

/-- A line that has been written is a message, unless its payload is too large. -/
theorem isPdu_text {fields : List Field} {data : List UInt8} (packs : Packs false entry.fmt fields data) :
    IsPdu .text msg (entry.word ++ fieldsText fields ++ crlf) ↔ data.length ≤ 65535 := by
  obtain ⟨member, id⟩ := found_id found
  by_cases help : msg = pseudoHelp
  · -- the pseudo-command has no arguments
    have first : (cmdtab.find? fun entry => entry.id == pseudoHelp) = some ⟨ascii "HELP", pseudoHelp, []⟩ := by
      decide
    rw [help, first] at found
    cases found
    cases packs
    exact ⟨fun _ => Nat.zero_le _, fun _ => ⟨[], Nat.zero_le _, _, rfl, .inr ⟨help, List.append_nil _, rfl⟩⟩⟩
  · have strict := strict_of_packs member (id ▸ help) packs
    rw [id] at strict
    constructor
    · rintro ⟨payload, small, line, same, strict' | ⟨help', -⟩⟩
      · rw [← List.append_cancel_right same] at strict'
        cases (readLine_of_parses strict).symm.trans (readLine_of_parses strict')
        exact small
      · exact absurd help' help
    · exact fun small => ⟨data, small, _, rfl, .inl strict⟩

end Found

section Main

variable {α : Type} {up : Upcalls α} {log : α → List UInt8} (logs : Logs up log) {fmt : List UInt8}
  {ap : List Arg} {cs : List Conversion} {ending : Ending} (converts : Converts fmt ap cs ending)
include logs converts

omit logs converts in
theorem line_bytes (entry : CmdEntry) (fields : List Field) :
    (Put.outbuf entry.word :: fields.flatMap Field.puts ++ [Put.outbuf crlf]).flatMap Put.bytes =
      entry.word ++ fieldsText fields ++ crlf := by
  simp only [List.flatMap_append, List.flatMap_cons, List.flatMap_nil, List.append_nil, Put.bytes,
    List.flatMap_assoc, Field.puts_bytes, fieldsText]

omit logs converts in
theorem line_short {entry : CmdEntry} (member : entry ∈ cmdtab) (fields : List Field) {extra : List Put}
    (short : ∀ put ∈ extra, put.bytes.length ≤ sizeofSizeT) :
    ∀ put ∈ Put.outbuf entry.word :: fields.flatMap Field.puts ++ extra, put.bytes.length ≤ sizeofSizeT := by
  have word := (by decide : ∀ entry ∈ cmdtab, entry.word.length ≤ 8) entry member
  intro put given
  rcases List.mem_append.mp given with line | inExtra
  · rcases List.mem_cons.mp line with rfl | inFields
    · exact word
    · obtain ⟨field, -, inPuts⟩ := List.mem_flatMap.mp inFields
      exact field.puts_short put inPuts
  · exact short put inExtra

variable {msg : UInt8} {entry : CmdEntry} (found : (cmdtab.find? fun entry => entry.id == msg) = some entry)
  {fields : List Field}
include found

theorem oneOrNothing_written (line : textLine entry.fmt false cs ending = (fields, none)) (app : α) :
    OneOrNothing up log .text app msg fmt ap ↔
      Room (.outbuf entry.word :: fields.flatMap Field.puts ++ [.outbuf crlf]) ∧
        ∀ data, Packs false entry.fmt fields data → data.length ≤ 65535 := by
  obtain ⟨member, -⟩ := found_id found
  have written : outputText msg fmt ap =
      .ok (.outbuf entry.word :: fields.flatMap Field.puts ++ [.outbuf crlf]) := by
    rw [outputText, found]
    exact outputEntry_written converts line
  rw [OneOrNothing, protoOutput]
  rcases sendText_written logs (line_short member fields (by simp [Put.bytes, crlf, sizeofSizeT])) written app with
    ⟨full, overflowed⟩ | ⟨room, ret, app', sent, logged⟩
  · rw [overflowed]
    exact ⟨(by rintro ⟨_, _, ⟨⟩, _⟩), fun fits => absurd fits.1 full⟩
  · rw [line_bytes] at logged
    constructor
    · rintro ⟨ret', app'', ran, outcome⟩
      cases sent.symm.trans ran
      refine ⟨room, fun data packs => ?_⟩
      rcases outcome with ⟨-, same⟩ | ⟨pdu, logged', isPdu⟩
      · -- a line is never empty
        have empty := List.append_right_eq_self.mp (logged.symm.trans same)
        exact absurd (List.append_eq_nil_iff.mp empty).2 (by decide)
      · cases List.append_cancel_left (logged.symm.trans logged')
        exact (isPdu_text found packs).mp isPdu
    · rintro ⟨-, small⟩
      obtain ⟨data, packs⟩ := textLine_packs (zeroOptional_cmdtab entry member) line
      exact ⟨ret, app', sent, .inr ⟨_, logged, (isPdu_text found packs).mpr (small data packs)⟩⟩

theorem oneOrNothing_refused {extra : List Put}
    (line : textLine entry.fmt false cs ending = (fields, some extra)) (app : α) :
    OneOrNothing up log .text app msg fmt ap ↔
      Quiet (.outbuf entry.word :: fields.flatMap Field.puts ++ extra) := by
  obtain ⟨member, -⟩ := found_id found
  obtain ⟨letters, rfl⟩ := textLine_extra line
  obtain ⟨text, refused⟩ : ∃ text, outputText msg fmt ap =
      .error (.error (.outbuf entry.word :: fields.flatMap Field.puts ++ spaceBefore letters) text) := by
    rw [outputText, found]
    exact outputEntry_refused converts line
  rw [OneOrNothing, protoOutput]
  rcases sendText_refused logs (line_short member fields (spaceBefore_short letters)) refused app with
    ⟨loud, overflowed | ⟨app', sent, ran, logged, some_, begins⟩⟩ | ⟨quiet, app', ran, same⟩
  · rw [overflowed]
    exact ⟨(by rintro ⟨_, _, ⟨⟩, _⟩), fun quiet => absurd quiet loud⟩
  · refine ⟨?_, fun quiet => absurd quiet loud⟩
    rintro ⟨ret', app'', ran', ⟨-, same⟩ | ⟨pdu, logged', payload, -, whole, rfl, -⟩⟩
    · cases ran.symm.trans ran'
      exact absurd (List.append_right_eq_self.mp (logged.symm.trans same)) some_
    · -- a part of a line has no line end
      cases ran.symm.trans ran'
      cases List.append_cancel_left (logged.symm.trans logged')
      refine absurd (begins.subset ?_) (not_lf member fields letters)
      simp [crlf]
  · exact ⟨fun _ => quiet, fun _ => ⟨-1, app', ran, .inl ⟨rfl, same⟩⟩⟩

omit found in
theorem text_one_or_nothing (app : α) (msg : UInt8) :
    OneOrNothing up log .text app msg fmt ap ↔ Safe .text msg cs ending := by
  rw [Safe]
  cases found : cmdtab.find? fun entry => entry.id == msg with
  | none =>
    have refused : outputText msg fmt ap = .error (.error [] (ascii "unknown msg 0x" ++ hex msg)) := by
      rw [outputText, found]
    refine iff_of_true ?_ trivial
    rcases sendText_refused logs (List.forall_mem_nil _) refused app with ⟨loud, -⟩ | ⟨-, app', sent, same⟩
    · exact absurd rfl loud
    · exact ⟨-1, app', sent, .inl ⟨rfl, same⟩⟩
  | some entry =>
    dsimp only
    cases line : textLine entry.fmt false cs ending with
    | mk fields refused =>
      cases refused with
      | none => exact oneOrNothing_written logs converts found line app
      | some extra => exact oneOrNothing_refused logs converts found line app

end Main

/-- In all modes a message is sent as a whole or not at all exactly if the call is safe. -/
theorem one_or_nothing_iff {α : Type} {up : Upcalls α} {log : α → List UInt8} (logs : Logs up log)
    (mode : Mode) (app : α) (msg : UInt8) {fmt : List UInt8} {ap : List Arg} {cs : List Conversion}
    {ending : Ending} (converts : Converts fmt ap cs ending) :
    OneOrNothing up log mode app msg fmt ap ↔ Safe mode msg cs ending := by
  have binary : (∃ ret app', outputBinary up app msg fmt ap = .ok (ret, app') ∧
      (ret = -1 ∧ log app' = log app ∨ ∃ pdu, log app' = log app ++ pdu ∧ IsPdu .binary msg pdu)) ↔
        (ending = .star → 9 ≤ cs.length) := by
    rcases outputBinary_converts logs converts app msg with
      ⟨star, few, aborted⟩ | ⟨goes, ret, app', ran, outcome⟩
    · rw [aborted]
      exact ⟨(by rintro ⟨_, _, ⟨⟩, _⟩), fun safe => absurd (safe star) (Nat.not_le.mpr few)⟩
    · refine iff_of_true ⟨ret, app', ran, outcome.imp id ?_⟩ fun star => ?_
      · rintro ⟨payload, small, logged⟩
        exact ⟨_, logged, payload, small, rfl⟩
      · exact Nat.not_lt.mp fun few => goes ⟨star, few⟩
  cases mode with
  | unknown | binary => exact binary
  | text => exact text_one_or_nothing logs converts app msg
  | framed =>
    rw [OneOrNothing, protoOutput, Safe]
    rcases outputFramed_converts logs converts app msg with
      ⟨star, few, aborted⟩ | ⟨rfl, few, ⟨large, overread⟩ | ⟨ret, app', payload, size, ran, logged⟩⟩ |
        ⟨full, full', app', ran, same⟩
    · rw [aborted]
      exact ⟨(by rintro ⟨_, _, ⟨⟩, _⟩), fun safe => absurd (safe.1 star) (Nat.not_le.mpr few)⟩
    · rw [overread]
      exact ⟨(by rintro ⟨_, _, ⟨⟩, _⟩), fun safe => absurd (safe.2 rfl few) (Nat.not_le.mpr large)⟩
    · constructor
      · rintro ⟨ret', app'', ran', outcome⟩
        cases ran.symm.trans ran'
        refine ⟨(by rintro ⟨⟩), fun _ _ => ?_⟩
        rcases outcome with ⟨-, same⟩ | ⟨pdu, logged', payload', small, rfl⟩
        · exact absurd (List.append_right_eq_self.mp (logged.symm.trans same)) (List.cons_ne_nil _ _)
        · cases List.append_cancel_left (logged.symm.trans logged')
          exact size ▸ small
      · rintro ⟨-, small⟩
        exact ⟨ret, app', ran, .inr ⟨_, logged, payload, size ▸ small rfl few, rfl⟩⟩
    · refine iff_of_true ⟨-1, app', ran, .inl ⟨rfl, same⟩⟩ ⟨full', fun done few => ?_⟩
      exact absurd (full done) (Nat.not_lt.mpr few)

/-- A connection that keeps what is sent. -/
def wire : Upcalls (List UInt8) where
  onInput := none
  onSendv := some fun sent iov => (1, sent ++ iov.flatten)
  onError := none

theorem wire_logs : Logs wire id := ⟨fun _ _ => rfl, fun _ _ => nofun, fun _ _ _ => rfl⟩

theorem one_or_nothing_pong : OneOrNothing wire id .text [] msgPong (ascii " %s") [.ptr [34, 0]] := by
  refine (one_or_nothing_iff wire_logs .text [] msgPong
    (.blank (.str (by decide) (by decide) .done))).mpr ⟨?_, fun data packs => ?_⟩
  · exact (by decide : (List.foldlM Put.level 0 (Put.outbuf (ascii "PONG") ::
      (Field.text [34]).puts ++ [Put.outbuf crlf])).isSome = true)
  · change Packs false [.bar, .t] [.text [34]] data at packs
    cases packs with
    | bar packs =>
      cases packs with
      | text _ packs => cases packs <;> exact (by decide : 1 ≤ 65535)

/-- VERSION with a second integer is refused when its first part has been sent, and a `%*`
without `s` is an abort. -/
theorem half_sent :
    protoOutput wire .text [] msgVersion (ascii "%c%c") [.int 5, .int 6] = .ok (-1, ascii "VERSION ") ∧
      protoOutput wire .binary [] msgVersion (ascii "%*d") [.int 5, .int 6] = .error .abort :=
  ⟨rfl, rfl⟩

end Infod

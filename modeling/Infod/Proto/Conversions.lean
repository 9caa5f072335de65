import Infod.Proto.Binary
import Mathlib

/-!
# Formats as they are read

`Converts` gives the conversions of a format with the arguments passed for them, up to the
first place that is no conversion. It is the same for all modes; what `to_binary_iov` makes
of a format, and so what `output_binary` and `output_framed` send, follows from it.
-/

namespace Infod

open Loop

/-- `%c`, `%s` and `%*s` with their arguments. -/
inductive Conversion where
  | byte (value : Int)
  | str (mem : List UInt8)
  | data (len : Nat) (mem : List UInt8)

/-- How a format ends: as it should, at a character or conversion that there is not, or at
a `%*` without `s`. -/
inductive Ending where
  | done | char | conversion | star
  deriving DecidableEq

/-- What a format and valid arguments for it are read as. A length is an `int`, and there are
as many bytes; for one that is too large for two strings and a NUL, a string will do. -/
inductive Converts : List UInt8 → List Arg → List Conversion → Ending → Prop where
  | done {ap : List Arg} : Converts [] ap [] .done
  | blank {fmt : List UInt8} {ap : List Arg} {cs : List Conversion} {ending : Ending} :
    Converts fmt ap cs ending → Converts (chr ' ' :: fmt) ap cs ending
  | char {ch : UInt8} {fmt : List UInt8} {ap : List Arg} (blank : ch ≠ chr ' ') (percent : ch ≠ chr '%') :
    Converts (ch :: fmt) ap [] .char
  | conversion {fmt : List UInt8} {ap : List Arg}
      (letter : fmt.headD 0 ≠ chr '*' ∧ fmt.headD 0 ≠ chr 's' ∧ fmt.headD 0 ≠ chr 'c') :
    Converts (chr '%' :: fmt) ap [] .conversion
  | star {fmt : List UInt8} {ap : List Arg} (letter : fmt.headD 0 ≠ chr 's') :
    Converts (chr '%' :: chr '*' :: fmt) ap [] .star
  | byte {fmt : List UInt8} {ap : List Arg} {cs : List Conversion} {ending : Ending} (value : Int) :
    Converts fmt ap cs ending →
      Converts (chr '%' :: chr 'c' :: fmt) (.int value :: ap) (.byte value :: cs) ending
  | str {fmt mem : List UInt8} {ap : List Arg} {cs : List Conversion} {ending : Ending}
      (nul : (0 : UInt8) ∈ mem) (object : mem.length < 2 ^ 60) :
    Converts fmt ap cs ending →
      Converts (chr '%' :: chr 's' :: fmt) (.ptr mem :: ap) (.str mem :: cs) ending
  | data {fmt mem : List UInt8} {ap : List Arg} {cs : List Conversion} {ending : Ending} (len : Nat)
      (int : len < 2 ^ 31) (fits : len ≤ mem.length ∨ 131071 < len ∧ (0 : UInt8) ∈ mem) :
    Converts fmt ap cs ending →
      Converts (chr '%' :: chr '*' :: chr 's' :: fmt) (.int len :: .ptr mem :: ap)
        (.data len mem :: cs) ending

/-- The bytes of a conversion. -/
def Conversion.range : Conversion → Iov
  | .byte value => ⟨[lowByte value], 1⟩
  | .str mem => ⟨mem, (cstr mem).length⟩
  | .data len mem => ⟨mem, len⟩

/-- The size of the payload. -/
def payloadSize (cs : List Conversion) : Nat := (cs.map fun c => c.range.len).sum

/-! ### The byte ranges -/

/-- A failure of `to_binary_iov` that is reported or passed on. -/
def OutputStop.Refusal (stop : OutputStop) : Prop := stop = .silent ∨ ∃ text, stop = .error [] text

/-- What `to_binary_iov` makes of conversions after some ranges: all the ranges, an abort, or
a refusal. -/
def Builds (maxiov : Nat) (iov : List Iov) (cs : List Conversion) (ending : Ending)
    (result : Except OutputStop IovBuild) : Prop :=
  (ending = .done ∧ iov.length + cs.length ≤ maxiov ∧
    ∃ b, result = .ok b ∧ b.iov = iov ++ cs.map Conversion.range) ∨
  (ending = .star ∧ iov.length + cs.length < maxiov ∧ result = .error (.fault .abort)) ∨
  ((ending = .done → maxiov < iov.length + cs.length) ∧
    (ending = .star → maxiov ≤ iov.length + cs.length) ∧ ∃ stop, result = .error stop ∧ stop.Refusal)

section Build

variable {maxiov worksz : Nat} {iov : List Iov} {cs : List Conversion} {ending : Ending}
  {result : Except OutputStop IovBuild}

/-- A conversion for which there is no room. -/
theorem Builds.silent (full : maxiov ≤ iov.length) (more : ending = .done → cs ≠ [])
    (silent : result = .error .silent) : Builds maxiov iov cs ending result := by
  refine .inr (.inr ⟨fun done => ?_, fun _ => by omega, _, silent, .inl rfl⟩)
  have := List.length_pos_iff.mpr (more done)
  omega

/-- A conversion adds its range. -/
theorem Builds.range {c : Conversion} (builds : Builds maxiov (iov ++ [c.range]) cs ending result) :
    Builds maxiov iov (c :: cs) ending result := by
  have length : (iov ++ [c.range]).length + cs.length = iov.length + (c :: cs).length := by
    simp only [List.length_append, List.length_cons, List.length_nil]
    omega
  rw [Builds, length] at builds
  refine builds.imp ?_ id
  rintro ⟨done, room, b, built, ranges⟩
  refine ⟨done, room, b, built, ?_⟩
  rw [ranges, List.append_assoc]
  rfl

theorem toBinaryNext_full {fmt : List UInt8} {ap : List Arg} {worklen : Nat}
    (full : iov.length ≥ maxiov) :
    toBinaryNext maxiov worksz ⟨chr '%' :: fmt, ap, iov, worklen⟩ = .error .silent := by
  rw [toBinaryNext]
  dsimp only
  rw [if_neg (by decide), if_neg (by decide), if_pos full]

theorem toBinaryNext_percent {fmt : List UInt8} {ap : List Arg} {worklen : Nat}
    (room : ¬ iov.length ≥ maxiov) :
    toBinaryNext maxiov worksz ⟨chr '%' :: fmt, ap, iov, worklen⟩ =
      if fmt.headD 0 = chr '*' then
        if fmt.tail.headD 0 ≠ chr 's' then .error (.fault .abort)
        else do
          let (len, ap) ← vaInt ap
          let (str, ap) ← vaPtr ap
          return some ⟨fmt.tail.tail, ap, iov ++ [⟨str, sizeT len⟩], worklen⟩
      else if fmt.headD 0 = chr 's' then do
        let (str, ap) ← vaPtr ap
        let len ← strlen str
        return some ⟨fmt.tail, ap, iov ++ [⟨str, len⟩], worklen⟩
      else if fmt.headD 0 = chr 'c' then
        if worklen ≥ worksz then .error .silent
        else do
          let (ch, ap) ← vaInt ap
          return some ⟨fmt.tail, ap, iov ++ [⟨[lowByte ch], 1⟩], worklen + 1⟩
      else .error (.error [] (ascii "unknown format %" ++ [fmt.headD 0])) := by
  rw [toBinaryNext]
  dsimp only
  rw [if_neg (by decide), if_neg (by decide), if_neg room]

/-- One `%c` needs one byte of the work area, which is no smaller than there are ranges. -/
theorem toBinaryNext_builds (enough : maxiov ≤ worksz) {fmt : List UInt8} {ap : List Arg}
    (converts : Converts fmt ap cs ending) {fuel worklen : Nat} (rounds : fmt.length < fuel)
    (within : iov.length ≤ maxiov) (work : worklen ≤ iov.length) :
    Builds maxiov iov cs ending
      (iterate (toBinaryNext maxiov worksz) (.fault .diverged) fuel ⟨fmt, ap, iov, worklen⟩) := by
  induction converts generalizing fuel iov worklen with
  | done =>
    obtain ⟨fuel, rfl⟩ := Nat.exists_eq_add_of_lt rounds
    rw [iterate_left rfl]
    exact .inl ⟨rfl, within, _, rfl, (List.append_nil _).symm⟩
  | blank _ ih =>
    obtain ⟨fuel, rfl⟩ := Nat.exists_eq_add_of_lt rounds
    rw [iterate_next rfl]
    exact ih (by rw [List.length_cons]; omega) within work
  | @char ch fmt ap blank percent =>
    obtain ⟨fuel, rfl⟩ := Nat.exists_eq_add_of_lt rounds
    refine .inr (.inr ⟨(by rintro ⟨⟩), (by rintro ⟨⟩), .error [] (ascii "unexpected format char " ++ [ch]),
      iterate_fails ?_ _, .inr ⟨_, rfl⟩⟩)
    rw [toBinaryNext]
    dsimp only
    rw [if_neg blank, if_pos percent]
  | @conversion fmt ap letter =>
    obtain ⟨fuel, rfl⟩ := Nat.exists_eq_add_of_lt rounds
    by_cases full : iov.length ≥ maxiov
    · exact .silent full (by rintro ⟨⟩) (iterate_fails (toBinaryNext_full full) _)
    · refine .inr (.inr ⟨(by rintro ⟨⟩), (by rintro ⟨⟩), .error [] (ascii "unknown format %" ++ [fmt.headD 0]),
        iterate_fails ?_ _, .inr ⟨_, rfl⟩⟩)
      rw [toBinaryNext_percent full, if_neg letter.1, if_neg letter.2.1, if_neg letter.2.2]
  | @star fmt ap letter =>
    obtain ⟨fuel, rfl⟩ := Nat.exists_eq_add_of_lt rounds
    by_cases full : iov.length ≥ maxiov
    · exact .silent full (by rintro ⟨⟩) (iterate_fails (toBinaryNext_full full) _)
    · refine .inr (.inl ⟨rfl, Nat.not_le.mp full, iterate_fails ?_ _⟩)
      rw [toBinaryNext_percent full, List.headD_cons, if_pos rfl]
      exact if_pos letter
  | @byte fmt ap cs ending value _ ih =>
    obtain ⟨fuel, rfl⟩ := Nat.exists_eq_add_of_lt rounds
    by_cases full : iov.length ≥ maxiov
    · exact .silent full (fun _ => List.cons_ne_nil _ _) (iterate_fails (toBinaryNext_full full) _)
    · have moved : toBinaryNext maxiov worksz ⟨chr '%' :: chr 'c' :: fmt, .int value :: ap, iov, worklen⟩ =
          .ok (some ⟨fmt, ap, iov ++ [Conversion.range (.byte value)], worklen + 1⟩) := by
        rw [toBinaryNext_percent full, List.headD_cons, if_neg (by decide), if_neg (by decide), if_pos rfl,
          if_neg (by omega)]
        rfl
      rw [iterate_next moved]
      refine .range (ih ?_ ?_ ?_)
      all_goals simp only [List.length_cons, List.length_append, List.length_nil]; omega
  | @str fmt mem ap cs ending nul object _ ih =>
    obtain ⟨fuel, rfl⟩ := Nat.exists_eq_add_of_lt rounds
    by_cases full : iov.length ≥ maxiov
    · exact .silent full (fun _ => List.cons_ne_nil _ _) (iterate_fails (toBinaryNext_full full) _)
    · have moved : toBinaryNext maxiov worksz ⟨chr '%' :: chr 's' :: fmt, .ptr mem :: ap, iov, worklen⟩ =
          .ok (some ⟨fmt, ap, iov ++ [Conversion.range (.str mem)], worklen⟩) := by
        rw [toBinaryNext_percent full, List.headD_cons, if_neg (by decide), if_pos rfl]
        exact Except.bind_ok rfl (Except.bind_ok (if_pos nul) rfl)
      rw [iterate_next moved]
      refine .range (ih ?_ ?_ ?_)
      all_goals simp only [List.length_cons, List.length_append, List.length_nil]; omega
  | @data fmt mem ap cs ending len int fits _ ih =>
    obtain ⟨fuel, rfl⟩ := Nat.exists_eq_add_of_lt rounds
    by_cases full : iov.length ≥ maxiov
    · exact .silent full (fun _ => List.cons_ne_nil _ _) (iterate_fails (toBinaryNext_full full) _)
    · have range : Conversion.range (.data len mem) = ⟨mem, sizeT len⟩ := by
        rw [show sizeT len = len by rw [sizeT]; omega]
        rfl
      have moved : toBinaryNext maxiov worksz
          ⟨chr '%' :: chr '*' :: chr 's' :: fmt, .int len :: .ptr mem :: ap, iov, worklen⟩ =
          .ok (some ⟨fmt, ap, iov ++ [Conversion.range (.data len mem)], worklen⟩) := by
        rw [toBinaryNext_percent full, List.headD_cons, if_pos rfl, List.tail_cons, List.headD_cons,
          if_neg (not_not.mpr rfl), range]
        rfl
      rw [iterate_next moved]
      refine .range (ih ?_ ?_ ?_)
      all_goals simp only [List.length_cons, List.length_append, List.length_nil]; omega

theorem toBinaryIov_converts (enough : maxiov ≤ worksz) {fmt : List UInt8} {ap : List Arg}
    (converts : Converts fmt ap cs ending) :
    (ending = .done ∧ cs.length ≤ maxiov ∧
      toBinaryIov maxiov worksz fmt ap = .ok (cs.map Conversion.range)) ∨
    (ending = .star ∧ cs.length < maxiov ∧ toBinaryIov maxiov worksz fmt ap = .error (.fault .abort)) ∨
    ((ending = .done → maxiov < cs.length) ∧ (ending = .star → maxiov ≤ cs.length) ∧
      ∃ stop, toBinaryIov maxiov worksz fmt ap = .error stop ∧ stop.Refusal) := by
  have builds : Builds maxiov [] cs ending _ := toBinaryNext_builds enough converts (Nat.lt_succ_self _)
    (Nat.zero_le _) (Nat.le_refl 0)
  rw [Builds, List.length_nil, Nat.zero_add] at builds
  rcases builds with ⟨done, room, b, built, ranges⟩ | ⟨star, room, aborted⟩ | ⟨full, full', stop, stopped, refusal⟩
  · refine .inl ⟨done, room, Except.bind_ok built ?_⟩
    rw [ranges]
    rfl
  · refine .inr (.inl ⟨star, room, ?_⟩)
    rw [toBinaryIov, aborted]
    rfl
  · refine .inr (.inr ⟨full, full', stop, ?_, refusal⟩)
    rw [toBinaryIov, stopped]
    rfl

end Build

/-! ### What is sent -/

/-- A conversion is within its memory, or too large for a payload. -/
theorem Converts.sizes {fmt : List UInt8} {ap : List Arg} {cs : List Conversion} {ending : Ending}
    (converts : Converts fmt ap cs ending) : ∀ c ∈ cs, c.range.len < 2 ^ 60 ∧
      (c.range.len ≤ c.range.base.length ∨ 65535 < c.range.len) := by
  induction converts with
  | done | char | conversion | star => exact fun c member => (nomatch member)
  | blank _ ih => exact ih
  | byte value _ ih =>
    exact List.forall_mem_cons.mpr ⟨⟨by show 1 < 2 ^ 60; decide, .inl (Nat.le_refl 1)⟩, ih⟩
  | @str fmt mem ap cs ending nul object _ ih =>
    have inside : (cstr mem).length ≤ mem.length := (List.takeWhile_prefix _).length_le
    exact List.forall_mem_cons.mpr ⟨⟨Nat.lt_of_le_of_lt inside object, .inl inside⟩, ih⟩
  | data len int fits _ ih =>
    exact List.forall_mem_cons.mpr ⟨⟨Nat.lt_trans int (by decide), fits.imp id fun large => Nat.lt_trans (by decide) large.1⟩, ih⟩

theorem le_payloadSize {cs : List Conversion} {c : Conversion} (member : c ∈ cs) :
    c.range.len ≤ payloadSize cs := by
  rw [payloadSize]
  exact List.le_sum_of_mem (List.mem_map_of_mem member)

theorem payloadSize_lt {cs : List Conversion} (sizes : ∀ c ∈ cs, c.range.len < 2 ^ 60)
    (few : cs.length ≤ 9) : payloadSize cs < 2 ^ 64 := by
  have bound : (cs.map fun c => c.range.len).sum ≤ cs.length * 2 ^ 60 := by
    have := List.sum_le_card_nsmul (cs.map fun c => c.range.len) (2 ^ 60) (by
      intro size member
      obtain ⟨c, given, rfl⟩ := List.mem_map.mp member
      exact (sizes c given).le)
    simpa using this
  rw [payloadSize]
  omega

/-- An application whose sends succeed and are logged. -/
structure Logs {α : Type} (up : Upcalls α) (log : α → List UInt8) : Prop where
  sends : ∀ app iov, log (up.sendv app iov).2 = log app ++ iov.flatten
  succeeds : ∀ app iov, (up.sendv app iov).1 ≠ -1
  reports : ∀ app tag text, log (up.errorv app tag text) = log app

section Send

variable {α : Type} {up : Upcalls α} {log : α → List UInt8} (logs : Logs up log)
include logs

/-- Ranges within their memory are sent, and others are not. -/
theorem sendIov_logs (app : α) (header : List UInt8) (iov : List Iov) :
    (InBounds iov ∧ ∃ ret app', sendIov up app header iov = .ok (ret, app') ∧
      log app' = log app ++ header ++ iov.flatMap Iov.bytes) ∨
    ¬ InBounds iov ∧ sendIov up app header iov = .error .overread := by
  rw [sendIov]
  split
  next onSendv connected =>
    by_cases bounds : InBounds iov
    · refine .inl ⟨bounds, _, _, if_pos (List.all_eq_true.mpr fun range member =>
        decide_eq_true (bounds range member)), ?_⟩
      have sent := logs.sends app (header :: iov.map Iov.bytes)
      rw [Upcalls.sendv, connected] at sent
      rw [sent, List.flatten_cons, List.flatMap_def, List.append_assoc]
    · refine .inr ⟨bounds, if_neg fun all => bounds fun range member => ?_⟩
      exact of_decide_eq_true (List.all_eq_true.mp all range member)
  next unset =>
    -- nothing would be logged
    have sent := logs.sends app [[0]]
    rw [Upcalls.sendv, unset] at sent
    simp at sent

theorem outputBinaryError_logs (app : α) {stop : OutputStop} (refusal : stop.Refusal) :
    ∃ app', outputBinaryError up app stop = .ok (-1, app') ∧ log app' = log app := by
  rcases refusal with rfl | ⟨text, rfl⟩
  · exact ⟨app, rfl, rfl⟩
  · exact ⟨_, rfl, logs.reports ..⟩

omit logs in
/-- The ranges have the size that is declared for them. -/
theorem bytes_length {cs : List Conversion} (bounds : InBounds (cs.map Conversion.range)) :
    ((cs.map Conversion.range).flatMap Iov.bytes).length = payloadSize cs := by
  rw [List.length_flatMap, List.map_map, payloadSize]
  refine congrArg List.sum (List.map_congr_left fun c member => ?_)
  have inside := bounds c.range (List.mem_map_of_mem member)
  rw [Function.comp_apply, Iov.bytes, List.length_take, Nat.min_eq_left inside]

variable {fmt : List UInt8} {ap : List Arg} {cs : List Conversion} {ending : Ending}
  (converts : Converts fmt ap cs ending)
include converts

omit logs in
theorem Converts.inBounds (small : payloadSize cs ≤ 65535) : InBounds (cs.map Conversion.range) := by
  intro range member
  obtain ⟨c, given, rfl⟩ := List.mem_map.mp member
  have size := le_payloadSize given
  exact (converts.sizes c given).2.resolve_right (by omega)

/-- Binary messages are sent as a whole or not at all, except that a `%*` aborts. -/
theorem outputBinary_converts (app : α) (msg : UInt8) :
    (ending = .star ∧ cs.length < 9 ∧ outputBinary up app msg fmt ap = .error .abort) ∨
    (¬ (ending = .star ∧ cs.length < 9) ∧ ∃ ret app', outputBinary up app msg fmt ap = .ok (ret, app') ∧
      (ret = -1 ∧ log app' = log app ∨
        ∃ payload, payload.length ≤ 65535 ∧ log app' = log app ++ frameBytes msg payload)) := by
  rcases toBinaryIov_converts (show 9 ≤ 16 by decide) converts with
    ⟨done, few, built⟩ | ⟨star, few, aborted⟩ | ⟨-, full, stop, stopped, refusal⟩
  · refine .inr ⟨fun aborts => (nomatch done.symm.trans aborts.1), ?_⟩
    have size : iovSize (cs.map Conversion.range) = payloadSize cs := by
      rw [iovSize, List.map_map]
      exact Nat.mod_eq_of_lt (payloadSize_lt (fun c member => (converts.sizes c member).1) few)
    rw [outputBinary, built]
    dsimp only
    rw [size]
    split
    next =>
      obtain ⟨app', refused, same⟩ := outputBinaryError_logs logs app (.inr ⟨_, rfl⟩)
      exact ⟨-1, app', refused, .inl ⟨rfl, same⟩⟩
    next small =>
      rw [Nat.not_lt] at small
      have bounds := converts.inBounds small
      rcases sendIov_logs logs app [msg, (payloadSize cs / 256).toUInt8, (payloadSize cs).toUInt8]
        (cs.map Conversion.range) with ⟨-, ret, app', sent, logged⟩ | ⟨outside, -⟩
      · have length := bytes_length bounds
        refine ⟨ret, app', sent, .inr ⟨_, length.trans_le small, ?_⟩⟩
        rw [logged, frameBytes, length, List.append_assoc]
        rfl
      · exact absurd bounds outside
  · refine .inl ⟨star, few, ?_⟩
    rw [outputBinary, aborted]
    rfl
  · refine .inr ⟨fun aborts => absurd (full aborts.1) (Nat.not_le.mpr aborts.2), ?_⟩
    obtain ⟨app', refused, same⟩ := outputBinaryError_logs logs app refusal
    rw [outputBinary, stopped]
    exact ⟨-1, app', refused, .inl ⟨rfl, same⟩⟩

/-- Framed messages are sent without a look at their size. -/
theorem outputFramed_converts (app : α) (msg : UInt8) :
    (ending = .star ∧ cs.length < 7 ∧ outputFramed up app msg fmt ap = .error .abort) ∨
    (ending = .done ∧ cs.length ≤ 7 ∧
      (65535 < payloadSize cs ∧ outputFramed up app msg fmt ap = .error .overread ∨
        ∃ ret app' payload, payload.length = payloadSize cs ∧
          outputFramed up app msg fmt ap = .ok (ret, app') ∧ log app' = log app ++ msg :: payload)) ∨
    ((ending = .done → 7 < cs.length) ∧ (ending = .star → 7 ≤ cs.length) ∧
      ∃ app', outputFramed up app msg fmt ap = .ok (-1, app') ∧ log app' = log app) := by
  rcases toBinaryIov_converts (show 7 ≤ 8 by decide) converts with
    ⟨done, few, built⟩ | ⟨star, few, aborted⟩ | ⟨full, full', stop, stopped, refusal⟩
  · refine .inr (.inl ⟨done, few, ?_⟩)
    rw [outputFramed, built]
    dsimp only
    rcases sendIov_logs logs app [msg] (cs.map Conversion.range) with
      ⟨bounds, ret, app', sent, logged⟩ | ⟨outside, refused⟩
    · refine .inr ⟨ret, app', _, bytes_length bounds, sent, ?_⟩
      rw [logged, List.append_assoc]
      rfl
    · refine .inl ⟨Nat.lt_of_not_le fun small => outside (converts.inBounds small), refused⟩
  · refine .inl ⟨star, few, ?_⟩
    rw [outputFramed, aborted]
    rfl
  · obtain ⟨app', refused, same⟩ := outputBinaryError_logs logs app refusal
    rw [outputFramed, stopped]
    exact .inr (.inr ⟨full, full', app', refused, same⟩)

end Send

end Infod

import Infod.Daemon.Pattern

/-!
# The matcher has the meaning of the pattern

`do_match` goes over the pattern once. After a branch has failed it keeps going, with
a string that may be anywhere, up to the next `|` or `)`; and after a branch has
matched it goes over the others as well. `Pattern.wanders` says that none of this has an
effect on what encloses it, and `Pattern.followed` that where the string is not lost,
the matcher does what the pattern says.
-/

namespace Infod

open Utf8

/-! ### Elements -/

section Elements

variable {b : UInt8} {pattern s : List UInt8} {parens outer : List Paren} {paren : Paren}

/-- A byte without a special meaning. -/
structure Plain (b : UInt8) : Prop where
  star : b ≠ chStar
  open_ : b ≠ chOpen
  bar : b ≠ chBar
  close : b ≠ chClose
  query : b ≠ chQuery
  backslash : b ≠ chBackslash
  nonzero : b ≠ 0

/-- Where the string does not go on as the pattern does. -/
def miss (pattern s : List UInt8) : List Paren → Int
  | [] => 0
  | paren :: outer => doMatch pattern (.rest s) ({ paren with failed := true } :: outer)

theorem doMatch_plain (plain : Plain b) :
    doMatch (b :: pattern) (.rest s) parens =
      if charAt s = b then doMatch pattern (.rest s.tail) parens else miss pattern s parens := by
  rw [doMatch.eq_def]
  dsimp only
  rw [if_neg plain.star, if_neg plain.open_, if_neg plain.bar, if_neg plain.close,
    if_neg plain.backslash]
  by_cases same : charAt s = b
  · simp [Subject.take, plain.query, same]
  · cases parens <;> simp [Subject.take, plain.query, same, miss]

theorem doMatch_escape :
    doMatch (chBackslash :: b :: pattern) (.rest s) parens =
      if charAt s = b then doMatch pattern (.rest s.tail) parens else miss pattern s parens := by
  rw [doMatch.eq_def]
  dsimp only
  rw [if_neg (by decide), if_neg (by decide), if_neg (by decide), if_neg (by decide),
    if_pos rfl]
  by_cases same : charAt s = b
  · simp [Subject.take, same]
  · cases parens <;> simp [Subject.take, same, miss]

theorem doMatch_query :
    doMatch (chQuery :: pattern) (.rest s) parens =
      if charAt s ≠ 0 then doMatch pattern (.rest (utf8inc s)) parens else miss pattern s parens := by
  rw [doMatch.eq_def]
  dsimp only
  rw [if_neg (by decide), if_neg (by decide), if_neg (by decide), if_neg (by decide),
    if_neg (by decide)]
  by_cases empty : charAt s = 0
  · cases parens <;> simp [Subject.take, empty, miss]
  · simp [Subject.take, empty]

theorem doMatch_open {string : Subject} (room : parens.length < maxParen) :
    doMatch (chOpen :: pattern) string parens =
      doMatch pattern string (⟨string, false, none⟩ :: parens) := by
  rw [doMatch.eq_def]
  dsimp only
  rw [if_neg (by decide), if_pos rfl, if_neg (by omega)]

/-- The pattern is at the end of a branch. -/
def Ends (pattern : List UInt8) : Prop :=
  charAt pattern = 0 ∨ charAt pattern = chBar ∨ charAt pattern = chClose

theorem doMatch_star_end (ends : Ends pattern) :
    doMatch (chStar :: pattern) (.rest s) parens = doMatch pattern (.rest []) parens := by
  have other : ¬ (charAt pattern = chStar ∨ charAt pattern = chOpen) := by
    rcases ends with zero | bar | close <;> simp_all [chStar, chOpen, chBar, chClose]
  rw [Ends] at ends
  rw [doMatch.eq_def]
  dsimp only
  rw [if_pos rfl, if_neg other, if_pos ends]
  rfl

theorem doMatch_star_query {string : Subject} :
    doMatch (chStar :: chQuery :: pattern) string parens =
      doMatch (chQuery :: pattern) string parens := by
  rw [doMatch.eq_def]
  dsimp only
  rw [if_pos rfl]
  simp [charAt, chQuery, chStar, chOpen, chBar, chClose]

theorem doMatch_star_plain (plain : Plain b) :
    doMatch (chStar :: b :: pattern) (.rest s) parens =
      doMatch (b :: pattern) (.rest (skipTo (b :: pattern) s.length s)) parens := by
  rw [doMatch.eq_def]
  dsimp only
  rw [if_pos rfl]
  simp [charAt, plain.star, plain.open_, plain.bar, plain.close, plain.query, plain.backslash,
    plain.nonzero]

/-- An open parenthesis of a pattern that is run on a string. -/
def opened (start : List UInt8) (failed : Bool) (success : Option (List UInt8)) : Paren :=
  ⟨.rest start, failed, success.map .rest⟩

/-- The position kept for the group at the end of a branch. -/
def branchEnd (failed : Bool) (success : Option (List UInt8)) (s : List UInt8) : Option (List UInt8) :=
  if !failed ∧ success.isNone then some s else success

theorem opened_failed (start : List UInt8) (failed : Bool) (success : Option (List UInt8)) :
    opened start true success = { opened start failed success with failed := true } := rfl

theorem opened_branch (start : List UInt8) (failed : Bool) (success : Option (List UInt8)) :
    (opened start failed success).branch (.rest s) =
      opened start failed (branchEnd failed success s) := by
  cases failed <;> cases success <;> rfl

theorem doMatch_bar {start : List UInt8} {failed : Bool} {success : Option (List UInt8)} :
    doMatch (chBar :: pattern) (.rest s) (opened start failed success :: outer) =
      doMatch pattern (.rest start) (opened start false (branchEnd failed success s) :: outer) := by
  rw [doMatch.eq_def]
  dsimp only
  rw [if_neg (by decide), if_neg (by decide), if_pos rfl, opened_branch]
  rfl

theorem doMatch_close {start : List UInt8} {failed : Bool} {success : Option (List UInt8)} :
    doMatch (chClose :: pattern) (.rest s) (opened start failed success :: outer) =
      match branchEnd failed success s with
      | some position => doMatch pattern (.rest position) outer
      | none => miss pattern s outer := by
  rw [doMatch.eq_def]
  dsimp only
  rw [if_neg (by decide), if_neg (by decide), if_neg (by decide), if_pos rfl]
  cases outer with
  | nil =>
    dsimp only
    rw [opened_branch]
    cases branchEnd failed success s <;> rfl
  | cons previous outer =>
    dsimp only
    rw [opened_branch]
    cases branchEnd failed success s <;> rfl

end Elements

/-! ### Characters -/

section Characters

variable {b : UInt8} {c d : Char} {key : List Char} {pattern s : List UInt8}

theorem Plain.of_continues (inside : continues b = true) : Plain b := by
  have large := large_of_high (.inr inside)
  constructor <;>
  · rintro rfl
    exact absurd large (by decide)

theorem char_eq {m : Char} (same : c.toNat = m.toNat) : c = m := Char.ext (UInt32.toNat_inj.mp same)

/-- The bytes of regular characters are plain. -/
theorem Regular.plain (regular : Regular c) (member : b ∈ String.utf8EncodeChar c) : Plain b := by
  have isChar (m : Char) (small : m.toNat < 128) (same : b = UInt8.ofNat m.toNat) : c = m := by
    have value : b.toNat = m.toNat := by
      rw [same, UInt8.toNat_ofNat']
      omega
    exact char_eq ((ascii_of_mem member (by omega)).trans value)
  have notMeta (m : Char) (special : m ∈ metachars) (small : m.toNat < 128) :
      b ≠ UInt8.ofNat m.toNat := by
    intro same
    rw [isChar m small same] at regular
    exact regular.1 special
  refine ⟨notMeta '*' (by decide) (by decide), notMeta '(' (by decide) (by decide),
    notMeta '|' (by decide) (by decide), notMeta ')' (by decide) (by decide),
    notMeta '?' (by decide) (by decide), notMeta '\\' (by decide) (by decide), fun zero => ?_⟩
  exact regular.2 (isChar nul (by decide) zero)

/-- The bytes of a character: the first is not zero, the others are plain. -/
theorem char_bytes (nonzero : c ≠ nul) :
    ∃ b bs, String.utf8EncodeChar c = b :: bs ∧ b ≠ 0 ∧ (∀ x ∈ bs, continues x = true) ∧
      (leads b = true ∨ leads b = false ∧ bs = []) := by
  have form := shape c
  have zero (member : (0 : UInt8) ∈ String.utf8EncodeChar c) : False :=
    nonzero (char_eq (ascii_of_mem member (by decide)))
  generalize String.utf8EncodeChar c = bytes at form zero
  cases form with
  | ascii small =>
    refine ⟨_, [], rfl, fun isZero => zero (by simp [isZero]), by simp, .inr ⟨?_, rfl⟩⟩
    by_contra lead
    have large := large_of_high (.inl (by simpa using lead))
    rw [UInt8.toNat_ofNat'] at large
    omega
  | several large lead rest =>
    exact ⟨_, _, rfl, fun isZero => zero (by simp [isZero]), rest, .inl lead⟩

theorem charAt_encode (nonzero : c ≠ nul) : charAt (encode (c :: key)) ≠ 0 := by
  obtain ⟨b, bs, bytes, isNonzero, _⟩ := char_bytes nonzero
  rw [encode_cons, bytes]
  exact isNonzero

/-- Advancing passes one character. -/
theorem utf8inc_encode (nonzero : c ≠ nul) : utf8inc (encode (c :: key)) = encode key := by
  obtain ⟨b, bs, bytes, _, inside, lead⟩ := char_bytes nonzero
  have stops : (encode key).dropWhile continues = encode key := by
    cases after : encode key with
    | nil => rfl
    | cons x xs => simp [encode_begins after]
  rw [utf8inc, encode_cons, bytes]
  rcases lead with lead | ⟨single, rfl⟩
  · have masked : b &&& 0xc0 = 0xc0 := by simpa [leads] using lead
    simp only [List.cons_append, charAt, List.headD_cons, masked, if_true, List.tail_cons]
    exact (List.dropWhile_append_of_pos inside).trans stops
  · have unmasked : ¬ b &&& 0xc0 = 0xc0 := by simpa [leads] using single
    simp [charAt, unmasked]

/-- Comparing the rest of a character is to find it in the pattern. -/
theorem utf8Tail_iff {bs after : List UInt8} (inside : ∀ x ∈ bs, continues x = true)
    (stops : ∀ x xs, after = x :: xs → continues x = false) (other : List UInt8) :
    utf8Tail (bs ++ after) other = true ↔ bs <+: other := by
  induction bs generalizing other with
  | nil =>
    cases after with
    | nil => simp [utf8Tail]
    | cons x xs =>
      have out : ¬ x &&& 0xc0 = 0x80 := by simpa [continues] using stops x xs rfl
      simp [utf8Tail, out]
  | cons x bs ih =>
    obtain ⟨first, others⟩ := List.forall_mem_cons.mp inside
    have masked : x &&& 0xc0 = 0x80 := by simpa [continues] using first
    have nonzero : x ≠ 0 := (Plain.of_continues first).nonzero
    cases other with
    | nil => simp [utf8Tail, masked, charAt, nonzero]
    | cons y ys =>
      by_cases same : x = y
      · subst same
        simp [utf8Tail, masked, charAt, ih others, List.cons_prefix_cons]
      · simp [utf8Tail, masked, charAt, same, List.cons_prefix_cons]

/-- The comparison of characters is right, if the string is text. -/
theorem utf8eq_encode (nonzero : d ≠ nul) (pattern : List UInt8) :
    utf8eq (encode (d :: key)) (String.utf8EncodeChar c ++ pattern) = decide (d = c) := by
  obtain ⟨b, bs, bytes, isNonzero, inside, lead⟩ := char_bytes nonzero
  have stops (x : UInt8) (xs : List UInt8) (after : encode key = x :: xs) : continues x = false :=
    encode_begins after
  -- it is a question of one string beginning with the other
  have compares : utf8eq (encode (d :: key)) (String.utf8EncodeChar c ++ pattern) = true ↔
      String.utf8EncodeChar d <+: String.utf8EncodeChar c ++ pattern := by
    rw [encode_cons, bytes]
    cases String.utf8EncodeChar c ++ pattern with
    | nil => simp [utf8eq, charAt, isNonzero]
    | cons y ys =>
      by_cases first : b = y
      · subst first
        rcases lead with lead | ⟨single, rfl⟩
        · have masked : b &&& 0xc0 = 0xc0 := by simpa [leads] using lead
          simp [utf8eq, charAt, masked, utf8Tail_iff inside stops, List.cons_prefix_cons]
        · have unmasked : ¬ b &&& 0xc0 = 0xc0 := by simpa [leads] using single
          simp [utf8eq, charAt, unmasked]
      · simp [utf8eq, charAt, first, List.cons_prefix_cons]
  rw [Bool.eq_iff_iff, compares, decide_eq_true_iff]
  constructor
  · rintro ⟨after, same⟩
    exact encode_unique same
  · rintro rfl
    exact List.prefix_append _ _

/-- The loop of `*c` finds the first `c`. -/
theorem skipTo_encode (clean : nul ∉ key) (pattern : List UInt8) {fuel : Nat}
    (enough : key.length ≤ fuel) :
    skipTo (String.utf8EncodeChar c ++ pattern) fuel (encode key) =
      encode (key.dropWhile fun d => d ≠ c) := by
  induction key generalizing fuel with
  | nil => cases fuel <;> simp [skipTo, charAt]
  | cons d key ih =>
    obtain ⟨fuel, rfl⟩ : ∃ more, fuel = more + 1 := ⟨fuel - 1, by simp at enough; omega⟩
    have nonzero : d ≠ nul := fun same => clean (by simp [same])
    rw [skipTo, utf8eq_encode nonzero]
    by_cases same : d = c
    · simp [same]
    · have deeper := ih (fun member => clean (List.mem_cons_of_mem d member))
        (show key.length ≤ fuel by simpa using enough)
      rw [if_pos ⟨charAt_encode nonzero, by simp [same]⟩, utf8inc_encode nonzero, deeper]
      simp [same]

theorem length_encode (key : List Char) : key.length ≤ (encode key).length := by
  induction key with
  | nil => simp
  | cons c key ih =>
    have := List.length_pos_of_ne_nil (String.utf8EncodeChar_ne_nil (c := c))
    simp only [encode_cons, List.length_append, List.length_cons]
    omega

end Characters

/-! ### Losing the string

What happens inside of parentheses once the string is lost, or does not matter any
more. All that can be seen of it outside is the failure of a branch.
-/

section Losing

variable {b : UInt8} {bs xs ys tail s first : List UInt8} {c : Char} {parens outer : List Paren}
  {paren : Paren}

/-- The matcher gets to `tail` with the branch failed at most. -/
def Wanders (tail : List UInt8) (paren : Paren) (outer : List Paren) (result : Int) : Prop :=
  ∃ s failed, result = doMatch tail (.rest s) ({ paren with failed } :: outer) ∧
    (paren.failed = true → failed = true)

/-- A part of a pattern, with groups up to `n` deep, that changes nothing else. -/
def Drifts (n : Nat) (bs : List UInt8) : Prop :=
  ∀ tail s paren outer, n + outer.length < maxParen →
    Wanders tail paren outer (doMatch (bs ++ tail) (.rest s) (paren :: outer))

theorem Wanders.trans {result : Int} (wanders : Wanders (bs ++ tail) paren outer result)
    (later : ∀ s failed, Wanders tail { paren with failed } outer
      (doMatch (bs ++ tail) (.rest s) ({ paren with failed } :: outer))) :
    Wanders tail paren outer result := by
  obtain ⟨s, failed, rfl, fails⟩ := wanders
  obtain ⟨s', failed', same, fails'⟩ := later s failed
  exact ⟨s', failed', same, fun before => fails' (fails before)⟩

theorem Wanders.moved {result : Int} (moved : result = doMatch tail (.rest s) (paren :: outer)) :
    Wanders tail paren outer result := ⟨s, paren.failed, moved, id⟩

theorem Wanders.missed : Wanders tail paren outer (miss tail s (paren :: outer)) :=
  ⟨s, true, rfl, fun _ => rfl⟩

/-- The bytes `first` of a pattern stand for the byte `b`. -/
def ReadsByte (first : List UInt8) (b : UInt8) : Prop :=
  ∀ pattern s parens, doMatch (first ++ pattern) (.rest s) parens =
    if charAt s = b then doMatch pattern (.rest s.tail) parens else miss pattern s parens

theorem Plain.reads (plain : Plain b) : ReadsByte [b] b := fun _ _ _ => doMatch_plain plain

theorem escape_reads (b : UInt8) : ReadsByte [chBackslash, b] b := fun _ _ _ => doMatch_escape

theorem ReadsByte.drifts (reads : ReadsByte first b) : Drifts 0 first := by
  intro tail s paren outer _
  rw [reads]
  split
  · exact .moved rfl
  · exact .missed

theorem Drifts.append {m n : Nat} (left : Drifts m xs) (right : Drifts n ys) :
    Drifts (max m n) (xs ++ ys) := by
  intro tail s paren outer room
  rw [List.append_assoc]
  refine (left (ys ++ tail) s paren outer (by omega)).trans fun s failed => ?_
  exact right tail s _ outer (by omega)

theorem drifts_plain (plain : ∀ x ∈ bs, Plain x) : Drifts 0 bs := by
  induction bs with
  | nil => exact fun tail s paren outer _ => .moved rfl
  | cons x bs ih =>
    obtain ⟨here, later⟩ := List.forall_mem_cons.mp plain
    exact here.reads.drifts.append (ih later)

theorem drifts_query : Drifts 0 [chQuery] := by
  intro tail s paren outer _
  rw [List.singleton_append, doMatch_query]
  split
  · exact .moved rfl
  · exact .missed

theorem drifts_star (plain : Plain b) (drifts : Drifts 0 (b :: bs)) :
    Drifts 0 (chStar :: b :: bs) := by
  intro tail s paren outer room
  rw [List.cons_append, List.cons_append, doMatch_star_plain plain, ← List.cons_append]
  exact drifts tail _ paren outer room

@[simp] theorem encode_open : String.utf8EncodeChar '(' = [chOpen] := by decide
@[simp] theorem encode_bar : String.utf8EncodeChar '|' = [chBar] := by decide
@[simp] theorem encode_close : String.utf8EncodeChar ')' = [chClose] := by decide
@[simp] theorem encode_star : String.utf8EncodeChar '*' = [chStar] := by decide
@[simp] theorem encode_query : String.utf8EncodeChar '?' = [chQuery] := by decide
@[simp] theorem encode_backslash : String.utf8EncodeChar '\\' = [chBackslash] := by decide

theorem Regular.drifts (regular : Regular c) : Drifts 0 (String.utf8EncodeChar c) :=
  drifts_plain fun _ member => regular.plain member

theorem drifts_escape (nonzero : c ≠ nul) : Drifts 0 (chBackslash :: String.utf8EncodeChar c) := by
  obtain ⟨b, bs, bytes, _, inside, _⟩ := char_bytes nonzero
  rw [bytes]
  exact (escape_reads b).drifts.append (drifts_plain fun x member => .of_continues (inside x member))

theorem Regular.drifts_star (regular : Regular c) : Drifts 0 (chStar :: String.utf8EncodeChar c) := by
  have drifts := regular.drifts
  obtain ⟨b, bs, bytes, _⟩ := char_bytes regular.2
  rw [bytes] at drifts ⊢
  exact Infod.drifts_star (regular.plain (bytes ▸ List.mem_cons_self)) drifts

/-- An element and what comes after it. -/
theorem Drifts.then {n : Nat} {next : List UInt8} (drifts : Drifts n bs)
    (room : n + outer.length < maxParen)
    (later : ∀ s failed, Wanders tail { paren with failed } outer
      (doMatch (next ++ tail) (.rest s) ({ paren with failed } :: outer))) :
    Wanders tail paren outer (doMatch (bs ++ next ++ tail) (.rest s) (paren :: outer)) := by
  rw [List.append_assoc]
  exact (drifts (next ++ tail) s paren outer room).trans later

theorem ends_bar (pattern : List UInt8) : Ends (chBar :: pattern) := .inr (.inl rfl)

theorem ends_close (pattern : List UInt8) : Ends (chClose :: pattern) := .inr (.inr rfl)

/-- What a closing parenthesis does to the enclosing branch. -/
theorem closed_wanders {start : List UInt8} {failed : Bool} {success : Option (List UInt8)} :
    Wanders tail paren outer
      (doMatch (chClose :: tail) (.rest s) (opened start failed success :: paren :: outer)) := by
  rw [doMatch_close]
  split
  · exact .moved rfl
  · exact .missed

mutual

theorem Pattern.wanders (p : Pattern) (s : List UInt8) (paren : Paren) {tail : List UInt8}
    {outer : List Paren} (ends : Ends tail) (room : p.depth + outer.length < maxParen) :
    Wanders tail paren outer (doMatch (encode p.render ++ tail) (.rest s) (paren :: outer)) := by
  cases p with
  | done => exact .moved rfl
  | rest =>
    simp only [Pattern.render, encode_cons, encode_star, encode_nil, List.append_nil,
      List.singleton_append, doMatch_star_end ends]
    exact .moved rfl
  | lit c regular next =>
    rw [Pattern.depth] at room
    rw [Pattern.render, encode_cons]
    exact regular.drifts.then (by omega) fun s failed => next.wanders s _ ends room
  | esc c nonzero next =>
    rw [Pattern.depth] at room
    rw [Pattern.render, encode_cons, encode_cons, encode_backslash, ← List.append_assoc]
    exact (drifts_escape nonzero).then (by omega) fun s failed => next.wanders s _ ends room
  | any next =>
    rw [Pattern.depth] at room
    rw [Pattern.render, encode_cons, encode_query]
    exact drifts_query.then (by omega) fun s failed => next.wanders s _ ends room
  | starLit c regular next =>
    rw [Pattern.depth] at room
    rw [Pattern.render, encode_cons, encode_cons, encode_star, ← List.append_assoc]
    exact regular.drifts_star.then (by omega) fun s failed => next.wanders s _ ends room
  | starAny next =>
    rw [Pattern.depth] at room
    rw [Pattern.render, encode_cons, encode_cons, encode_star, encode_query]
    change Wanders _ _ _ (doMatch (chStar :: chQuery :: (encode next.render ++ tail)) _ _)
    rw [doMatch_star_query]
    exact drifts_query.then (by omega) fun s failed => next.wanders s _ ends room
  | group branches next =>
    rw [Pattern.depth] at room
    rw [Pattern.render, encode_cons, encode_append, encode_cons, encode_open, encode_close]
    simp only [List.cons_append, List.nil_append, List.append_assoc]
    rw [doMatch_open (by simp only [List.length_cons]; omega)]
    obtain ⟨s', failed, success, same, _⟩ := branches.wanders (encode next.render ++ tail) s s false
      none (paren :: outer) (by simp only [List.length_cons]; omega)
    have closed : Wanders (encode next.render ++ tail) paren outer (doMatch
        (encode branches.render ++ chClose :: (encode next.render ++ tail)) (.rest s)
        (opened s false none :: paren :: outer)) := by
      rw [same]
      exact closed_wanders
    exact closed.trans fun s failed => next.wanders s _ ends (by omega)

/-- The branches up to the closing parenthesis. A branch that has matched is kept. -/
theorem Branches.wanders (branches : Branches) (tail s start : List UInt8) (failed : Bool)
    (success : Option (List UInt8)) (outer : List Paren)
    (room : branches.depth + outer.length < maxParen) :
    ∃ s' failed' success', doMatch (encode branches.render ++ chClose :: tail) (.rest s)
        (opened start failed success :: outer) =
      doMatch (chClose :: tail) (.rest s') (opened start failed' success' :: outer) ∧
      ∀ position, success = some position → success' = some position := by
  cases branches with
  | last branch =>
    rw [Branches.depth] at room
    obtain ⟨s', failed', same, _⟩ := branch.wanders s (opened start failed success)
      (ends_close tail) room
    exact ⟨s', failed', success, same, fun _ => id⟩
  | more branch others =>
    rw [Branches.depth] at room
    rw [Branches.render, encode_append, encode_cons, encode_bar]
    simp only [List.cons_append, List.nil_append, List.append_assoc]
    have within : branch.depth + outer.length < maxParen := by omega
    obtain ⟨s', failed', same, _⟩ := branch.wanders s (opened start failed success)
      (ends_bar (encode others.render ++ chClose :: tail)) within
    rw [same]
    obtain ⟨s'', failed'', success'', same', kept⟩ := others.wanders tail start start false
      (branchEnd failed' success s') outer (by omega)
    refine ⟨s'', failed'', success'', ?_, fun position before => kept position ?_⟩
    · exact doMatch_bar.trans same'
    · simp [branchEnd, before]

end

end Losing

/-! ### Following the pattern -/

section Following

variable {b : UInt8} {bs tail s first : List UInt8} {c : Char} {key : List Char}
  {parens : List Paren} {result : Int}

/-- The pattern has not matched: the matcher returns, or goes on with a failed branch. -/
def Lost (tail : List UInt8) : List Paren → Int → Prop
  | [], result => result = 0
  | paren :: outer, result =>
    ∃ s, result = doMatch tail (.rest s) ({ paren with failed := true } :: outer)

/-- What the matcher returns, given what a part of the pattern leaves of the key. -/
def Leaves (tail : List UInt8) (parens : List Paren) : Option (List Char) → Int → Prop
  | some key, result => nul ∉ key ∧ result = doMatch tail (.rest (encode key)) parens
  | none, result => Lost tail parens result

theorem miss_lost : Lost tail parens (miss tail s parens) := by
  cases parens with
  | nil => rfl
  | cons paren outer => exact ⟨s, rfl⟩

theorem Lost.wanders (lost : Lost (bs ++ tail) parens result)
    (wanders : ∀ s paren outer, parens = paren :: outer → Wanders tail { paren with failed := true } outer
      (doMatch (bs ++ tail) (.rest s) ({ paren with failed := true } :: outer))) :
    Lost tail parens result := by
  cases parens with
  | nil => exact lost
  | cons paren outer =>
    obtain ⟨s, rfl⟩ := lost
    obtain ⟨s', failed, same, fails⟩ := wanders s paren outer rfl
    obtain rfl : failed = true := fails rfl
    exact ⟨s', same⟩

theorem Lost.drifts (lost : Lost (bs ++ tail) parens result) (drifts : Drifts 0 bs)
    (few : parens.length ≤ maxParen) : Lost tail parens result := by
  refine lost.wanders fun s paren outer same => drifts tail s _ outer ?_
  rw [same, List.length_cons] at few
  omega

theorem plain_found (plain : ∀ x ∈ bs, Plain x) :
    doMatch (bs ++ tail) (.rest (bs ++ s)) parens = doMatch tail (.rest s) parens := by
  induction bs with
  | nil => rfl
  | cons x bs ih =>
    obtain ⟨here, later⟩ := List.forall_mem_cons.mp plain
    rw [List.cons_append, List.cons_append, doMatch_plain here, if_pos (charAt_cons ..)]
    exact ih later

theorem plain_lost (plain : ∀ x ∈ bs, Plain x) (few : parens.length ≤ maxParen)
    (differs : ¬ bs <+: s) : Lost tail parens (doMatch (bs ++ tail) (.rest s) parens) := by
  induction bs generalizing s with
  | nil => exact absurd List.nil_prefix differs
  | cons x bs ih =>
    obtain ⟨here, later⟩ := List.forall_mem_cons.mp plain
    rw [List.cons_append, doMatch_plain here]
    split
    next same =>
      cases s with
      | nil => exact absurd same.symm here.nonzero
      | cons y s =>
        obtain rfl : y = x := same
        exact ih later fun isPrefix => differs (List.cons_prefix_cons.mpr ⟨rfl, isPrefix⟩)
    · exact miss_lost.drifts (drifts_plain later) few

/-- A character of the pattern that stands for itself. -/
theorem leaves_char (reads : ReadsByte first b) (bytes : String.utf8EncodeChar c = b :: bs)
    (nonzero : c ≠ nul) (clean : nul ∉ key) (few : parens.length ≤ maxParen) :
    Leaves tail parens (takeChar c key)
      (doMatch (first ++ (bs ++ tail)) (.rest (encode key)) parens) := by
  have plain : (∀ x ∈ bs, Plain x) ∧ b ≠ 0 := by
    obtain ⟨b', bs', bytes', isNonzero, inside, _⟩ := char_bytes nonzero
    obtain ⟨rfl, rfl⟩ := List.cons.inj (bytes'.symm.trans bytes)
    exact ⟨fun x member => .of_continues (inside x member), isNonzero⟩
  have lost (differs : ¬ b :: bs <+: encode key) :
      Lost tail parens (doMatch (first ++ (bs ++ tail)) (.rest (encode key)) parens) := by
    rw [reads]
    split
    next same =>
      cases text : encode key with
      | nil =>
        rw [text] at same
        exact absurd same.symm plain.2
      | cons y s =>
        rw [text] at same differs
        obtain rfl : y = b := same
        exact plain_lost plain.1 few fun isPrefix =>
          differs (List.cons_prefix_cons.mpr ⟨rfl, isPrefix⟩)
    · exact miss_lost.drifts (drifts_plain plain.1) few
  cases key with
  | nil => exact lost (by simp)
  | cons d key =>
    by_cases same : d = c
    · subst same
      rw [takeChar, if_pos rfl]
      refine ⟨fun member => clean (List.mem_cons_of_mem d member), ?_⟩
      rw [reads, encode_cons, bytes, List.cons_append, if_pos (charAt_cons ..)]
      exact plain_found plain.1
    · rw [takeChar, if_neg same]
      refine lost fun isPrefix => ?_
      rw [← bytes] at isPrefix
      obtain ⟨rest, begins⟩ := prefix_encode isPrefix
      exact same (List.cons.inj begins).1

theorem Regular.leaves (regular : Regular c) (clean : nul ∉ key) (few : parens.length ≤ maxParen) :
    Leaves tail parens (takeChar c key)
      (doMatch (String.utf8EncodeChar c ++ tail) (.rest (encode key)) parens) := by
  obtain ⟨b, bs, bytes, _⟩ := char_bytes regular.2
  have reads := (regular.plain (bytes ▸ List.mem_cons_self)).reads
  rw [bytes]
  exact leaves_char reads bytes regular.2 clean few

theorem leaves_escape (nonzero : c ≠ nul) (clean : nul ∉ key) (few : parens.length ≤ maxParen) :
    Leaves tail parens (takeChar c key)
      (doMatch (chBackslash :: (String.utf8EncodeChar c ++ tail)) (.rest (encode key)) parens) := by
  obtain ⟨b, bs, bytes, _⟩ := char_bytes nonzero
  rw [bytes]
  exact leaves_char (escape_reads b) bytes nonzero clean few

theorem leaves_any (clean : nul ∉ key) :
    Leaves tail parens (takeAny key) (doMatch (chQuery :: tail) (.rest (encode key)) parens) := by
  rw [doMatch_query]
  cases key with
  | nil => exact miss_lost
  | cons c key =>
    have nonzero : c ≠ nul := fun same => clean (by simp [same])
    rw [if_pos (charAt_encode nonzero), utf8inc_encode nonzero]
    exact ⟨fun member => clean (List.mem_cons_of_mem c member), rfl⟩

theorem Regular.leaves_star (regular : Regular c) (clean : nul ∉ key)
    (few : parens.length ≤ maxParen) :
    Leaves tail parens (takeThrough c key)
      (doMatch (chStar :: (String.utf8EncodeChar c ++ tail)) (.rest (encode key)) parens) := by
  obtain ⟨b, bs, bytes, _⟩ := char_bytes regular.2
  have plain := regular.plain (bytes ▸ List.mem_cons_self)
  have skips : doMatch (chStar :: (String.utf8EncodeChar c ++ tail)) (.rest (encode key)) parens =
      doMatch (String.utf8EncodeChar c ++ tail) (.rest (encode (key.dropWhile fun d => d ≠ c)))
        parens := by
    rw [← skipTo_encode clean tail (length_encode key), bytes]
    exact doMatch_star_plain plain
  rw [skips]
  exact regular.leaves (fun member => clean ((List.dropWhile_sublist _).mem member)) few

/-- After an element the pattern goes on with what it has left. -/
theorem Leaves.then {left : Option (List Char)} (next : Pattern)
    (leaves : Leaves (encode next.render ++ tail) parens left result) (ends : Ends tail)
    (room : next.depth + parens.length ≤ maxParen)
    (later : ∀ key, nul ∉ key → Leaves tail parens (next.consume key)
      (doMatch (encode next.render ++ tail) (.rest (encode key)) parens)) :
    Leaves tail parens (left.bind next.consume) result := by
  cases left with
  | some key =>
    obtain ⟨clean, rfl⟩ := leaves
    exact later key clean
  | none =>
    refine Lost.wanders leaves fun s paren outer same => next.wanders s _ ends ?_
    rw [same, List.length_cons] at room
    omega

/-- Once a branch has matched, the group leaves what that branch has left. -/
theorem Branches.settled (branches : Branches) (tail s start : List UInt8)
    (failed : Bool) (position : List UInt8) {parens : List Paren}
    (room : branches.depth + parens.length < maxParen) :
    doMatch (encode branches.render ++ chClose :: tail) (.rest s)
      (opened start failed (some position) :: parens) = doMatch tail (.rest position) parens := by
  obtain ⟨s', failed', success', same, kept⟩ := branches.wanders tail s start failed (some position)
    parens room
  rw [same, kept position rfl, doMatch_close]
  simp [branchEnd]

mutual

theorem Pattern.followed (p : Pattern) {tail : List UInt8} {key : List Char} {parens : List Paren}
    (ends : Ends tail) (clean : nul ∉ key) (room : p.depth + parens.length ≤ maxParen) :
    Leaves tail parens (p.consume key)
      (doMatch (encode p.render ++ tail) (.rest (encode key)) parens) := by
  cases p with
  | done => exact ⟨clean, rfl⟩
  | rest =>
    simp only [Pattern.render, encode_cons, encode_star, encode_nil, List.append_nil,
      List.singleton_append, doMatch_star_end ends]
    exact ⟨List.not_mem_nil, rfl⟩
  | lit c regular next =>
    rw [Pattern.depth] at room
    rw [Pattern.render, encode_cons, List.append_assoc]
    exact (regular.leaves clean (by omega)).then next ends room fun key clean =>
      next.followed ends clean room
  | esc c nonzero next =>
    rw [Pattern.depth] at room
    rw [Pattern.render, encode_cons, encode_cons, encode_backslash, List.append_assoc,
      List.append_assoc]
    exact (leaves_escape nonzero clean (by omega)).then next ends room fun key clean =>
      next.followed ends clean room
  | any next =>
    rw [Pattern.depth] at room
    rw [Pattern.render, encode_cons, encode_query]
    exact (leaves_any clean).then next ends room fun key clean => next.followed ends clean room
  | starLit c regular next =>
    rw [Pattern.depth] at room
    rw [Pattern.render, encode_cons, encode_cons, encode_star, List.append_assoc, List.append_assoc]
    exact (regular.leaves_star clean (by omega)).then next ends room fun key clean =>
      next.followed ends clean room
  | starAny next =>
    rw [Pattern.depth] at room
    rw [Pattern.render, encode_cons, encode_cons, encode_star, encode_query]
    change Leaves _ _ _ (doMatch (chStar :: chQuery :: (encode next.render ++ tail)) _ _)
    rw [doMatch_star_query]
    exact (leaves_any clean).then next ends room fun key clean => next.followed ends clean room
  | group branches next =>
    rw [Pattern.depth] at room
    rw [Pattern.render, encode_cons, encode_append, encode_cons, encode_open, encode_close]
    simp only [List.cons_append, List.nil_append, List.append_assoc]
    rw [doMatch_open (by omega)]
    exact (branches.followed clean (by omega)).then next ends (by omega) fun key clean =>
      next.followed ends clean (by omega)

/-- A group, after its opening parenthesis. -/
theorem Branches.followed (branches : Branches) {tail : List UInt8} {key : List Char}
    {parens : List Paren} (clean : nul ∉ key) (room : branches.depth + parens.length < maxParen) :
    Leaves tail parens (branches.consume key)
      (doMatch (encode branches.render ++ chClose :: tail) (.rest (encode key))
        (opened (encode key) false none :: parens)) := by
  cases branches with
  | last branch =>
    rw [Branches.depth] at room
    have first := branch.followed (ends_close tail) clean
      (show _ + (opened (encode key) false none :: parens).length ≤ _ from room)
    rw [Branches.consume]
    cases left : branch.consume key with
    | some rest =>
      rw [left] at first
      obtain ⟨clean', same⟩ := first
      refine ⟨clean', ?_⟩
      rw [Branches.render, same, doMatch_close]
      rfl
    | none =>
      rw [left] at first
      obtain ⟨s, same⟩ := first
      change Lost _ _ _
      rw [Branches.render, same, ← opened_failed, doMatch_close]
      exact miss_lost
  | more branch others =>
    rw [Branches.depth] at room
    have first := branch.followed (ends_bar (encode others.render ++ chClose :: tail)) clean
      (show _ + (opened (encode key) false none :: parens).length ≤ _ by
        simp only [List.length_cons]; omega)
    rw [Branches.render, encode_append, encode_cons, encode_bar, Branches.consume]
    simp only [List.cons_append, List.nil_append, List.append_assoc]
    cases left : branch.consume key with
    | some rest =>
      -- the other branches make no difference
      rw [left] at first
      obtain ⟨clean', same⟩ := first
      refine ⟨clean', ?_⟩
      rw [same, doMatch_bar]
      exact others.settled _ _ _ _ _ (by omega)
    | none =>
      -- the next branch starts where this one did
      rw [left] at first
      obtain ⟨s, same⟩ := first
      rw [same, ← opened_failed, doMatch_bar]
      exact others.followed clean (by omega)

end

end Following

end Infod

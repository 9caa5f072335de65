import Infod.Proto.Payload
import Infod.Proto.TextArguments
import Infod.Proto.TextRefinement

/-!
# What the text encoder writes is read back

Each round of the encoder writes an argument, or none for the NUL between two strings, and
`Encoded` says what the line has so far; the line as a whole is then read by the decoder.
-/

namespace Infod

open Loop

/-! ### Rounds of the encoder -/

/-- The calls that write an argument, with the space before it. -/
def Field.puts : Field → List Put
  | .int value => [.putc (chr ' '), .outbuf (decimal value.toNat)]
  | .text bytes =>
    .putc (chr ' ') :: .putc (chr '"') :: bytes.map quoteChar ++ [.putc (chr '"')]

theorem Field.puts_bytes (field : Field) : field.puts.flatMap Put.bytes = chr ' ' :: field.render := by
  cases field with
  | int value => simp [puts, render, Put.bytes]
  | text bytes => simp [puts, render, Put.bytes, quoted]

/-- A string that has been written is short, and within its memory. -/
theorem outputTextString_ok {puts puts' : List Put} {str : List UInt8} {value : Int}
    (written : outputTextString (puts ++ [.putc (chr ' ')]) str value = .ok puts') :
    ∃ bytes, bytes = str.take (value % 2 ^ 32).toNat ∧ bytes.length = (value % 2 ^ 32).toNat ∧
      bytes.length ≤ 0xffff ∧ puts' = puts ++ (Field.text bytes).puts := by
  rw [outputTextString] at written
  split at written
  next => cases written
  next small =>
    split at written
    next => cases written
    next fits =>
      cases written
      have size : (str.take (value % 2 ^ 32).toNat).length = (value % 2 ^ 32).toNat := by
        rw [List.length_take]
        omega
      exact ⟨_, rfl, size, by omega, by simp [Field.puts]⟩

/-- What a round of the loop in `output_text` does to the variables: it takes arguments
for some bytes of the payload, and writes some fields. -/
inductive Round (e : Encoding) : Encoding → List Field → List UInt8 → Prop where
  | blank {fmt : List UInt8} (at_ : e.fmt = chr ' ' :: fmt) : Round e { e with fmt } [] []
  | int {fmt : List UInt8} {tfmt : List TFmt} {value : Int} {ap : List Arg}
      (at_ : e.fmt = chr '%' :: chr 'c' :: fmt) (arg : e.ap = .int value :: ap)
      (letter : e.tfmt.dropWhile (· = .bar) = .i :: tfmt) :
    Round e ⟨fmt, tfmt, e.optional || e.tfmt.head? = some .bar, ap,
      e.puts ++ (Field.int (lowByte value)).puts⟩ [.int (lowByte value)] [lowByte value]
  | zero {fmt : List UInt8} {tfmt : List TFmt} {ap : List Arg}
      (at_ : e.fmt = chr '%' :: chr 'c' :: fmt) (arg : e.ap = .int 0 :: ap)
      (letter : e.tfmt.dropWhile (· = .bar) = .zero :: tfmt) :
    Round e ⟨fmt, tfmt, e.optional || e.tfmt.head? = some .bar, ap, e.puts⟩ [] [0]
  | str {fmt mem bytes : List UInt8} {tfmt : List TFmt} {ap : List Arg}
      (at_ : e.fmt = chr '%' :: chr 's' :: fmt) (arg : e.ap = .ptr mem :: ap)
      (letter : e.tfmt.dropWhile (· = .bar) = .t :: tfmt) (nul : (0 : UInt8) ∈ mem)
      (taken : bytes = mem.take (((cstr mem).length : Int) % 2 ^ 32).toNat)
      (short : bytes.length ≤ 0xffff) :
    Round e ⟨fmt, tfmt, e.optional || e.tfmt.head? = some .bar, ap, e.puts ++ (Field.text bytes).puts⟩
      [.text bytes] bytes
  | data {fmt mem bytes : List UInt8} {tfmt : List TFmt} {ap : List Arg} {len : Int}
      (at_ : e.fmt = chr '%' :: chr '*' :: chr 's' :: fmt) (arg : e.ap = .int len :: .ptr mem :: ap)
      (letter : e.tfmt.dropWhile (· = .bar) = .t :: tfmt)
      (taken : bytes = mem.take (len % 2 ^ 32).toNat) (size : bytes.length = (len % 2 ^ 32).toNat)
      (short : bytes.length ≤ 0xffff) :
    Round e ⟨fmt.dropWhile (· = chr ' '), tfmt, e.optional || e.tfmt.head? = some .bar, ap,
      e.puts ++ (Field.text bytes).puts⟩ [.text bytes] bytes
  -- data with a NUL is a key and its value
  | split {fmt mem key value : List UInt8} {ap : List Arg} {len : Int}
      (at_ : e.fmt = chr '%' :: chr '*' :: chr 's' :: fmt) (arg : e.ap = .int len :: .ptr mem :: ap)
      (letter : e.tfmt.dropWhile (· = .bar) = [.t, .bar, .zero, .t])
      (last : fmt.dropWhile (· = chr ' ') = []) (nul : (0 : UInt8) ∈ mem.take (sizeT len))
      (front : key = mem.take (((cstr mem).length : Int) % 2 ^ 32).toNat)
      (taken : value = (mem.drop ((cstr mem).length + 1)).take
        ((len - ((cstr mem).length + 1)) % 2 ^ 32).toNat)
      (size : value.length = ((len - ((cstr mem).length + 1)) % 2 ^ 32).toNat)
      (short : key.length ≤ 0xffff ∧ value.length ≤ 0xffff) :
    Round e ⟨[], [], true, ap, e.puts ++ (Field.text key).puts ++ (Field.text value).puts⟩
      [.text key, .text value] (key ++ 0 :: value)

theorem vaInt_ok {ap ap' : List Arg} {value : Int} (taken : vaInt ap = .ok (value, ap')) :
    ap = .int value :: ap' := by
  cases ap with
  | nil => cases taken
  | cons arg ap =>
    cases arg with
    | int value =>
      cases taken
      rfl
    | ptr mem => cases taken

theorem vaPtr_ok {ap ap' : List Arg} {mem : List UInt8} (taken : vaPtr ap = .ok (mem, ap')) :
    ap = .ptr mem :: ap' := by
  cases ap with
  | nil => cases taken
  | cons arg ap =>
    cases arg with
    | int value => cases taken
    | ptr mem =>
      cases taken
      rfl

theorem memchrNul_ok {str : List UInt8} {len : Int} (found : memchrNul str len = .ok true) :
    (0 : UInt8) ∈ str.take (sizeT len) := by
  rw [memchrNul] at found
  split at found
  next nul => exact nul
  next =>
    split at found
    · cases found
    · cases found

section Rounds

variable {entry : CmdEntry} {ofmt : List UInt8} {e : Encoding} {next : Option Encoding} {f : UInt8} {fmt : List UInt8}
  {tfmt : List TFmt}

theorem round_int (at_ : e.fmt = chr '%' :: f :: fmt) (letter : e.tfmt.dropWhile (· = .bar) = .i :: tfmt)
    (ran : outputInt entry ofmt f ⟨fmt, tfmt, e.optional || e.tfmt.head? = some .bar, e.ap,
      e.puts ++ [.putc (chr ' ')]⟩ = .ok next) : ∃ e' fields packed, next = some e' ∧ Round e e' fields packed := by
  rw [outputInt] at ran
  split at ran
  next => cases ran
  next conversion =>
    rw [not_not] at conversion
    subst conversion
    obtain ⟨⟨value, ap⟩, taken, rest⟩ := Except.bind_eq_ok.mp ran
    cases rest
    rw [List.append_assoc]
    exact ⟨_, _, _, rfl, .int at_ (vaInt_ok taken) letter⟩

theorem round_zero (at_ : e.fmt = chr '%' :: f :: fmt)
    (letter : e.tfmt.dropWhile (· = .bar) = .zero :: tfmt)
    (ran : outputZero entry ofmt f ⟨fmt, tfmt, e.optional || e.tfmt.head? = some .bar, e.ap, e.puts⟩ =
      .ok next) : ∃ e' fields packed, next = some e' ∧ Round e e' fields packed := by
  rw [outputZero] at ran
  split at ran
  next => cases ran
  next conversion =>
    rw [not_not] at conversion
    subst conversion
    obtain ⟨⟨value, ap⟩, taken, rest⟩ := Except.bind_eq_ok.mp ran
    dsimp only at rest
    split at rest
    next => cases rest
    next zero =>
      rw [not_not] at zero
      subst zero
      cases rest
      exact ⟨_, _, _, rfl, .zero at_ (vaInt_ok taken) letter⟩

theorem round_str (at_ : e.fmt = chr '%' :: chr 's' :: fmt)
    (letter : e.tfmt.dropWhile (· = .bar) = .t :: tfmt)
    (ran : outputStr entry ofmt (chr 's') ⟨fmt, tfmt, e.optional || e.tfmt.head? = some .bar, e.ap,
      e.puts ++ [.putc (chr ' ')]⟩ = .ok next) : ∃ e' fields packed, next = some e' ∧ Round e e' fields packed := by
  have other : chr 's' ≠ chr '*' := by decide
  rw [outputStr] at ran
  simp only [if_neg other, ne_eq, not_true_eq_false, if_false] at ran
  obtain ⟨⟨mem, ap⟩, taken, rest⟩ := Except.bind_eq_ok.mp ran
  obtain ⟨len, measured, rest⟩ := Except.bind_eq_ok.mp rest
  obtain ⟨puts, written, rest⟩ := Except.bind_eq_ok.mp rest
  cases rest
  rw [strlen] at measured
  split at measured
  next nul =>
    cases measured
    obtain ⟨bytes, taken', -, short, rfl⟩ := outputTextString_ok written
    exact ⟨_, _, _, rfl, .str at_ (vaPtr_ok taken) letter nul taken' short⟩
  next => cases measured

theorem round_data (at_ : e.fmt = chr '%' :: chr '*' :: f :: fmt)
    (letter : e.tfmt.dropWhile (· = .bar) = .t :: tfmt)
    (ran : outputStr entry ofmt (chr '*') ⟨f :: fmt, tfmt, e.optional || e.tfmt.head? = some .bar, e.ap,
      e.puts ++ [.putc (chr ' ')]⟩ = .ok next) : ∃ e' fields packed, next = some e' ∧ Round e e' fields packed := by
  rw [outputStr] at ran
  simp only [if_true, List.headD_cons, List.tail_cons] at ran
  split at ran
  next => cases ran
  next conversion =>
    rw [not_not] at conversion
    subst conversion
    obtain ⟨⟨len, ap⟩, counted, rest⟩ := Except.bind_eq_ok.mp ran
    obtain ⟨⟨mem, ap'⟩, pointed, rest⟩ := Except.bind_eq_ok.mp rest
    have arg := (vaInt_ok counted).trans (congrArg _ (vaPtr_ok pointed))
    obtain ⟨split, found, rest⟩ := Except.bind_eq_ok.mp rest
    cases split with
    | false =>
      obtain ⟨puts, written, rest⟩ := Except.bind_eq_ok.mp rest
      cases rest
      obtain ⟨bytes, taken, size, short, rfl⟩ := outputTextString_ok written
      exact ⟨_, _, _, rfl, .data at_ arg letter taken size short⟩
    | true =>
      split at found
      next only =>
        obtain ⟨puts, written, rest⟩ := Except.bind_eq_ok.mp rest
        obtain ⟨puts', written', rest⟩ := Except.bind_eq_ok.mp rest
        cases rest
        obtain ⟨key, front, -, short, rfl⟩ := outputTextString_ok written
        obtain ⟨value, taken, size, short', rfl⟩ := outputTextString_ok written'
        rw [only.2]
        exact ⟨_, _, _, rfl, .split at_ arg (letter.trans (congrArg _ only.1)) only.2 (memchrNul_ok found) front
          taken size ⟨short, short'⟩⟩
      next => cases found

/-- A round ends the loop at the end of the format only. -/
theorem outputNext_round (ran : outputNext entry ofmt e = .ok next) :
    (next = none ∧ e.fmt = []) ∨ ∃ e' fields packed, next = some e' ∧ Round e e' fields packed := by
  rw [outputNext] at ran
  split at ran
  next ended =>
    cases ran
    exact .inl ⟨rfl, ended⟩
  next f fmt at_ =>
    apply Or.inr
    by_cases blank : f = chr ' '
    · rw [if_pos blank] at ran
      cases ran
      exact ⟨_, _, _, rfl, .blank (by rw [at_, blank])⟩
    rw [if_neg blank] at ran
    by_cases percent : f = chr '%'
    swap
    · rw [if_pos percent] at ran
      cases ran
    rw [if_neg (not_not.mpr percent)] at ran
    subst percent
    cases fmt with
    | nil =>
      -- no conversion letter is NUL
      split at ran <;> cases ran
    | cons f fmt =>
      dsimp only [List.headD_cons, List.tail_cons] at ran
      split at ran
      next => cases ran
      next tfmt letter => exact round_int at_ letter ran
      next tfmt letter => exact round_zero at_ letter ran
      next tfmt letter =>
        by_cases star : f = chr '*'
        · subst star
          cases fmt with
          | nil => cases ran
          | cons f fmt => exact round_data at_ letter ran
        · by_cases conversion : f = chr 's'
          · subst conversion
            exact round_str at_ letter ran
          · rw [outputStr] at ran
            simp only [if_neg star, ne_eq, conversion, not_false_eq_true, if_true] at ran
            cases ran
      next => cases ran

end Rounds

/-! ### The line that is written -/

theorem Packs.dropBars {optional : Bool} {fmt : List TFmt} {fields : List Field} {data : List UInt8}
    (packs : Packs (optional || fmt.head? = some .bar) (fmt.dropWhile (· = .bar)) fields data) :
    Packs optional fmt fields data := by
  induction fmt generalizing optional with
  | nil => simpa using packs
  | cons letter fmt ih =>
    by_cases bar : letter = .bar
    · subst bar
      simp only [List.head?_cons, decide_true, Bool.or_true, List.dropWhile_cons_of_pos] at packs
      exact .bar (ih (by simpa using packs))
    · rw [List.dropWhile_cons_of_neg (by simpa using bar)] at packs
      simpa [bar] using packs

/-- The NUL of a format comes after its bar. -/
def zeroOptional : Bool → List TFmt → Bool
  | _, [] => true
  | _, .bar :: fmt => zeroOptional true fmt
  | optional, .zero :: fmt => optional && zeroOptional optional fmt
  | optional, _ :: fmt => zeroOptional optional fmt

theorem zeroOptional_cmdtab : ∀ entry ∈ cmdtab, zeroOptional false entry.fmt = true := by decide

theorem zeroOptional_dropBars {optional : Bool} {fmt : List TFmt}
    (zeroed : zeroOptional optional fmt = true) :
    zeroOptional (optional || fmt.head? = some .bar) (fmt.dropWhile (· = .bar)) = true := by
  induction fmt generalizing optional with
  | nil => rfl
  | cons letter fmt ih =>
    by_cases bar : letter = .bar
    · subst bar
      simpa using @ih true zeroed
    · rw [List.dropWhile_cons_of_neg (by simpa using bar)]
      simpa [bar] using zeroed

/-- The fields of the line so far, the payload they stand for, and NULs whose field has
not come yet. -/
structure Encoded (entry : CmdEntry) (e : Encoding) (fields : List Field) (data zeros : List UInt8) :
    Prop where
  bytes : e.puts.flatMap Put.bytes = entry.word ++ fields.flatMap fun field => chr ' ' :: field.render
  goes : ∀ field rest more, Packs e.optional e.tfmt (field :: rest) more →
    Packs false entry.fmt (fields ++ field :: rest) (data ++ zeros ++ more)
  ends : Packs e.optional e.tfmt [] [] → Packs false entry.fmt fields data
  zeroed : zeroOptional e.optional e.tfmt = true

section Encoded

variable {entry : CmdEntry} {e e' : Encoding} {fields fs : List Field} {data zeros packed : List UInt8}

/-- A field that is written for the next letter of the format. -/
theorem Encoded.field (encoded : Encoded entry e fields data zeros) (packed : List UInt8) {field : Field}
    {letter : TFmt} {fmt : List UInt8} {tfmt : List TFmt} {ap : List Arg}
    (at_ : e.tfmt.dropWhile (· = .bar) = letter :: tfmt)
    (packs : ∀ {optional rest more}, Packs optional tfmt rest more →
      Packs optional (letter :: tfmt) (field :: rest) (packed ++ more))
    (kept : ∀ {optional}, zeroOptional optional (letter :: tfmt) = true →
      zeroOptional optional tfmt = true) :
    Encoded entry ⟨fmt, tfmt, e.optional || e.tfmt.head? = some .bar, ap, e.puts ++ field.puts⟩
      (fields ++ [field]) (data ++ zeros ++ packed) [] := by
  have goes (rest : List Field) (more : List UInt8)
      (packs' : Packs (e.optional || e.tfmt.head? = some .bar) tfmt rest more) :
      Packs false entry.fmt (fields ++ field :: rest) (data ++ zeros ++ (packed ++ more)) :=
    encoded.goes field rest _ (.dropBars (at_ ▸ packs packs'))
  refine ⟨?_, fun field' rest more packs' => ?_, fun packs' => ?_, kept (at_ ▸ zeroOptional_dropBars encoded.zeroed)⟩
  · simp [encoded.bytes, field.puts_bytes]
  · simpa using goes _ _ packs'
  · simpa using goes _ _ packs'

theorem Encoded.round (encoded : Encoded entry e fields data zeros) (round : Round e e' fs packed) :
    ∃ data' zeros', Encoded entry e' (fields ++ fs) data' zeros' ∧
      data' ++ zeros' = data ++ zeros ++ packed ∧ (fs ≠ [] → zeros' = []) ∧
      (packed = [] → fs = [] → zeros' = zeros) := by
  cases round with
  | blank at_ =>
    refine ⟨data, zeros, ?_, by simp, fun written => absurd rfl written, fun _ _ => rfl⟩
    rw [List.append_nil]
    exact ⟨encoded.bytes, encoded.goes, encoded.ends, encoded.zeroed⟩
  | int at_ arg letter =>
    exact ⟨_, [], encoded.field [_] letter (fun packs => .int _ packs) (fun kept => kept), by simp,
      fun _ => rfl, fun _ written => nomatch written⟩
  | zero at_ arg letter =>
    have zeroed := zeroOptional_dropBars encoded.zeroed
    rw [letter, zeroOptional, Bool.and_eq_true] at zeroed
    refine ⟨data, zeros ++ [0], ⟨by simpa using encoded.bytes, fun field rest more packs => ?_,
      fun packs => ?_, zeroed.2⟩, by simp, fun written => absurd rfl written, fun written => nomatch written⟩
    · simpa using encoded.goes field rest _ (.dropBars (letter ▸ .zero packs))
    · -- the NUL is not written without what follows it, and nothing need follow
      rw [List.append_nil]
      apply encoded.ends
      apply Packs.dropBars
      rw [zeroed.1]
      exact .omitted
  | str at_ arg letter nul taken short =>
    exact ⟨_, [], encoded.field _ letter (fun packs => .text _ packs) (fun kept => kept), by simp,
      fun _ => rfl, fun _ written => nomatch written⟩
  | data at_ arg letter taken size short =>
    exact ⟨_, [], encoded.field _ letter (fun packs => .text _ packs) (fun kept => kept), by simp,
      fun _ => rfl, fun _ written => nomatch written⟩
  | @split fmt mem key value ap len at_ arg letter last nul front taken size short =>
    have both : Packs false entry.fmt (fields ++ [.text key, .text value])
        (data ++ zeros ++ (key ++ 0 :: (value ++ []))) :=
      encoded.goes _ _ _ (.dropBars (letter ▸ .text key (.bar (.zero (.text value .done)))))
    refine ⟨data ++ zeros ++ (key ++ 0 :: value), [],
      ⟨?_, fun field rest more packs => (nomatch packs), fun _ => by simpa using both, rfl⟩,
      by simp, fun _ => rfl, fun _ written => nomatch written⟩
    simp [encoded.bytes, Field.puts_bytes]

/-- A line is written for fields of the entry's format. They stand for what the rounds
have taken, but for NULs at the end; what the rounds keep of the variables, of what has been
taken and of those NULs, holds in the end. -/
theorem outputEntry_writes {fmt : List UInt8} {ap : List Arg} {puts : List Put}
    (member : entry ∈ cmdtab) (ran : outputEntry entry fmt ap = .ok puts)
    (inv : Encoding → List UInt8 → List UInt8 → Prop)
    (start : inv ⟨fmt, entry.fmt, false, ap, [.outbuf entry.word]⟩ [] [])
    (keeps : ∀ e e' taken zeros zeros' fs packed, inv e taken zeros → Round e e' fs packed →
      (fs ≠ [] → zeros' = []) → (packed = [] → fs = [] → zeros' = zeros) →
      inv e' (taken ++ packed) zeros') :
    ∃ fields data zeros e, puts.flatMap Put.bytes = entry.word ++ lineRest fields ∧
      Packs false entry.fmt fields data ∧ e.fmt = [] ∧ inv e (data ++ zeros) zeros := by
  obtain ⟨last, looped, rest⟩ := Except.bind_eq_ok.mp ran
  have first : Encoded entry ⟨fmt, entry.fmt, false, ap, [.outbuf entry.word]⟩ [] [] [] :=
    ⟨by simp [Put.bytes], fun _ _ _ packs => packs, fun packs => packs, zeroOptional_cmdtab entry member⟩
  obtain ⟨fields, data, zeros, encoded, kept⟩ := iterate_keeps
    (fun e => ∃ fields data zeros, Encoded entry e fields data zeros ∧ inv e (data ++ zeros) zeros)
    (fun e e' ⟨_, _, _, encoded, kept⟩ moved => by
      obtain ⟨fs, packed, round⟩ : ∃ fs packed, Round e e' fs packed := by
        rcases outputNext_round moved with ⟨left, -⟩ | ⟨_, fs, packed, same, round⟩
        · cases left
        · exact ⟨fs, packed, Option.some.inj same ▸ round⟩
      obtain ⟨data', zeros', encoded', taken, written, blank⟩ := encoded.round round
      exact ⟨_, data', zeros', encoded', taken ▸ keeps _ _ _ _ _ _ _ kept round written blank⟩)
    ⟨[], [], [], first, start⟩ looped
  have ended : last.fmt = [] := by
    rcases outputNext_round (iterate_leaves looped) with ⟨-, ended⟩ | ⟨_, _, _, more, -⟩
    · exact ended
    · cases more
  split at rest
  next => cases rest
  next complete =>
    cases rest
    refine ⟨fields, data, zeros, last, ?_, encoded.ends ?_, ended, kept⟩
    · rw [List.flatMap_append, encoded.bytes, lineRest, List.append_assoc]
      simp [Put.bytes]
    · generalize last.optional = optional at complete
      generalize last.tfmt = tfmt at complete
      cases tfmt with
      | nil => exact .done
      | cons letter tfmt =>
        cases optional with
        | true => exact .omitted
        | false =>
          have bar : letter = .bar := by simpa using complete
          exact bar ▸ .bar .omitted

/-- A round takes its part of the payload. Below 64 KiB no length is cut off. -/
theorem Round.denotes (round : Round e e' fs packed) {rest : List UInt8}
    (denotes : Denotes e.fmt e.ap rest) (small : rest.length ≤ 0xffff) :
    ∃ rest', rest = packed ++ rest' ∧ Denotes e'.fmt e'.ap rest' := by
  cases round with
  | blank at_ =>
    rw [at_] at denotes
    exact ⟨rest, rfl, denotes.blank_inv⟩
  | int at_ arg letter =>
    rw [at_, arg] at denotes
    exact denotes.byte_inv
  | zero at_ arg letter =>
    rw [at_, arg] at denotes
    exact denotes.byte_inv
  | @str fmt mem bytes tfmt ap at_ arg letter nul taken short =>
    rw [at_, arg] at denotes
    obtain ⟨rest', rfl, denotes'⟩ := denotes.str_inv
    rw [List.length_append] at small
    have whole : (((cstr mem).length : Int) % 2 ^ 32).toNat = (cstr mem).length := by omega
    rw [whole, take_cstr] at taken
    exact ⟨rest', by rw [taken], denotes'⟩
  | @data fmt mem bytes tfmt ap len at_ arg letter taken size short =>
    rw [at_, arg] at denotes
    obtain ⟨n, rest', rfl, fits, rfl, denotes'⟩ := denotes.data_inv
    rw [List.length_append, List.length_take] at small
    have whole : ((n : Int) % 2 ^ 32).toNat = n := by omega
    rw [whole] at taken
    exact ⟨rest', by rw [taken], denotes'.dropBlanks⟩
  | @split fmt mem key value ap len at_ arg letter last nul front taken size short =>
    rw [at_, arg] at denotes
    obtain ⟨n, rest', rfl, fits, rfl, denotes'⟩ := denotes.data_inv
    rw [List.length_append, List.length_take] at small
    have whole : sizeT n = n := by
      rw [sizeT]
      omega
    rw [whole] at nul
    have same : cstr (mem.take n) = cstr mem := by
      rw [← cstr_append_of_mem nul (mem.drop n), List.take_append_drop]
    have parts := cstr_split nul
    rw [same, List.drop_take] at parts
    have length := congrArg List.length parts
    simp only [List.length_append, List.length_cons, List.length_take, List.length_drop] at length
    have whole' : (((cstr mem).length : Int) % 2 ^ 32).toNat = (cstr mem).length := by omega
    have rest_len : (((n : Int) - ((cstr mem).length + 1)) % 2 ^ 32).toNat = n - ((cstr mem).length + 1) := by
      omega
    rw [whole', take_cstr] at front
    rw [rest_len] at taken
    refine ⟨rest', by rw [parts, front, taken], ?_⟩
    rw [← last]
    exact denotes'.dropBlanks

end Encoded

/-! ### Round trip -/

/-- The formats in use. -/
def formats : List (List UInt8) :=
  [ascii "", ascii "%c", ascii "%c%s", ascii "%s", ascii "%*s", ascii "%s%c%*s"]

/-- What is left of a format that ends in a string. -/
def innerFormats : List (List UInt8) :=
  [ascii "%c%s", ascii "%s", ascii "%*s", ascii "%c%*s", ascii "%s%c%*s"]

/-- What is left of one of the formats. A NUL is without its string no longer than that is
still to come. -/
def Tidy (e : Encoding) (zeros : List UInt8) : Prop :=
  e.fmt ∈ innerFormats ∨ (zeros = [] ∧ (e.fmt = [] ∨
    (e.fmt = ascii "%c" ∧ (e.tfmt.dropWhile (· = .bar)).head? ≠ some .zero)))

theorem Tidy.round {e e' : Encoding} {fs : List Field} {packed zeros zeros' : List UInt8}
    (tidy : Tidy e zeros) (round : Round e e' fs packed) (written : fs ≠ [] → zeros' = []) :
    Tidy e' zeros' := by
  have afterByte : ∀ f ∈ innerFormats, f.take 2 = ascii "%c" → f.drop 2 ∈ innerFormats := by decide
  have afterStr : ∀ f ∈ innerFormats, f.take 2 = ascii "%s" → f.drop 2 ∈ innerFormats ∨ f.drop 2 = [] := by
    decide
  have afterData : ∀ f ∈ innerFormats, f.take 3 = ascii "%*s" → f.drop 3 = [] := by decide
  cases round with
  | blank at_ =>
    have none : ∀ f ∈ innerFormats, f.head? ≠ some (chr ' ') := by decide
    rcases tidy with inner | ⟨-, ended | ⟨single, -⟩⟩
    · exact absurd (by rw [at_]; rfl) (none _ inner)
    · exact absurd (at_.symm.trans ended) (by simp)
    · exact absurd (show some (chr ' ') = some (chr '%') from congrArg List.head? (at_.symm.trans single))
        (by decide)
  | int at_ arg letter =>
    rcases tidy with inner | ⟨-, ended | ⟨single, -⟩⟩
    · have rest := afterByte _ inner (by rw [at_]; rfl)
      rw [at_] at rest
      exact .inl rest
    · exact absurd (at_.symm.trans ended) (by simp)
    · have rest := congrArg (List.drop 2) (at_.symm.trans single)
      exact .inr ⟨written (by simp), .inl rest⟩
  | zero at_ arg letter =>
    rcases tidy with inner | ⟨-, ended | ⟨-, other⟩⟩
    · have rest := afterByte _ inner (by rw [at_]; rfl)
      rw [at_] at rest
      exact .inl rest
    · exact absurd (at_.symm.trans ended) (by simp)
    · exact absurd (by rw [letter]; rfl) other
  | str at_ arg letter nul taken short =>
    rcases tidy with inner | ⟨-, ended | ⟨single, -⟩⟩
    · have rest := afterStr _ inner (by rw [at_]; rfl)
      rw [at_] at rest
      exact rest.imp id fun ended => ⟨written (by simp), .inl ended⟩
    · exact absurd (at_.symm.trans ended) (by simp)
    · exact absurd (show [chr '%', chr 's'] = ascii "%c" from congrArg (List.take 2) (at_.symm.trans single))
        (by decide)
  | data at_ arg letter taken size short =>
    rcases tidy with inner | ⟨-, ended | ⟨single, -⟩⟩
    · have rest := afterData _ inner (by rw [at_]; rfl)
      rw [at_] at rest
      change _ = [] at rest
      simp only [List.drop_succ_cons, List.drop_zero] at rest
      exact .inr ⟨written (by simp), .inl (by rw [rest]; rfl)⟩
    · exact absurd (at_.symm.trans ended) (by simp)
    · exact absurd (show [chr '%', chr '*'] = ascii "%c" from congrArg (List.take 2) (at_.symm.trans single))
        (by decide)
  | split => exact .inr ⟨written (by simp), .inl rfl⟩

/-- The line of an accepted message has fields for its whole payload. -/
theorem outputEntry_payload {entry : CmdEntry} {fmt payload : List UInt8} {ap : List Arg}
    {puts : List Put} (member : entry ∈ cmdtab) (format : fmt ∈ formats)
    (denotes : Denotes fmt ap payload) (small : payload.length ≤ 0xffff)
    (ran : outputEntry entry fmt ap = .ok puts) :
    ∃ fields, puts.flatMap Put.bytes = entry.word ++ lineRest fields ∧
      Packs false entry.fmt fields payload := by
  have letters : ∀ entry ∈ cmdtab, (entry.fmt.dropWhile (· = .bar)).head? ≠ some .zero := by decide
  have known : ∀ f ∈ formats, f ∈ innerFormats ∨ f = [] ∨ f = ascii "%c" := by decide
  obtain ⟨fields, data, zeros, e, written, packs, ended, ⟨rest, denotes', whole⟩, tidy⟩ :=
    outputEntry_writes member ran
      (fun e taken zeros => (∃ rest, Denotes e.fmt e.ap rest ∧ taken ++ rest = payload) ∧ Tidy e zeros)
      ⟨⟨payload, denotes, rfl⟩, (known fmt format).imp id fun short =>
        ⟨rfl, short.imp id fun single => ⟨single, letters entry member⟩⟩⟩
      (fun e e' taken zeros zeros' fs packed ⟨⟨rest, denotes, whole⟩, tidy⟩ round fresh _ => by
        have below : rest.length ≤ 0xffff := by
          rw [← whole, List.length_append] at small
          omega
        obtain ⟨rest', parts, denotes'⟩ := round.denotes denotes below
        exact ⟨⟨rest', denotes', by rw [List.append_assoc, ← parts, whole]⟩, tidy.round round fresh⟩)
  have none : rest = [] := (ended ▸ denotes').end_inv
  have clean : zeros = [] := by
    rcases tidy with inner | ⟨clean, -⟩
    · exact absurd (ended ▸ inner) (by decide)
    · exact clean
  rw [none, clean, List.append_nil, List.append_nil] at whole
  exact ⟨fields, written, whole ▸ packs⟩

/-- The decoder of the text mode reads what the encoder has written: one message, with the
payload that the other modes have, and no error. -/
theorem text_round_trip {α : Type} {heap : Heap} {up : Upcalls α}
    {onInput : α → UInt8 → List UInt8 → Int × α} (good : ∀ n, heap.realloc n = true)
    (set : up.onInput = some onInput) {p : Proto α} (bol : p.t.state = .bol) {msg : UInt8}
    (command : msg ≠ pseudoHelp) {fmt payload : List UInt8} {ap : List Arg} (format : fmt ∈ formats)
    (denotes : Denotes fmt ap payload) {puts : List Put} (accepted : outputText msg fmt ap = .ok puts)
    (small : payload.length ≤ 65533) (positive : 0 < (onInput p.app msg payload).1) :
    (∃ iov, toBinaryIov 9 16 fmt ap = .ok iov ∧ iov.flatMap Iov.bytes = payload) ∧
      ∃ q, recvText heap up p (puts.flatMap Put.bytes) = .ok ((puts.flatMap Put.bytes).length, q) ∧
        q.t.state = .bol ∧ q.app = (onInput p.app msg payload).2 := by
  have counts : ∀ f ∈ formats, f.count (chr '%') ≤ 9 ∧ f.count (chr 'c') ≤ 16 := by decide
  obtain ⟨iov, built, bytes, -⟩ := toBinaryIov_spec denotes (by omega) (counts fmt format).1 (counts fmt format).2
  refine ⟨⟨iov, built, bytes⟩, ?_⟩
  rw [outputText] at accepted
  split at accepted
  next => cases accepted
  next entry found =>
    have member := List.mem_of_find?_eq_some found
    have id : entry.id = msg := by simpa using List.find?_some found
    obtain ⟨fields, written, packs⟩ := outputEntry_payload member format denotes (by omega) accepted
    have words : ∀ entry ∈ cmdtab, (entry.word ≠ [] ∧ ∀ ch ∈ entry.word, isWord ch = true) ∧
        entry.word.length < 16 ∧
        (cmdtab.find? fun other => sameWord other.word entry.word) = some entry := by decide +kernel
    obtain ⟨⟨nonempty, word⟩, short, looked⟩ := words entry member
    have ran : lineRun .bol (puts.flatMap Put.bytes) = some (.bol, [.input msg payload]) := by
      rw [written]
      refine lineRun_append (run_word nonempty word short) (run_lineRest (ready_cmd looked) packs ?_ small command)
      rw [id]
      rfl
    have filled : puts.flatMap Put.bytes ≠ [] := by
      rw [written]
      simp [nonempty]
    obtain ⟨q, received, follows, app, -⟩ := recvBytes_runs good set (s := .bol) bol ran ⟨positive, trivial⟩ 0
    refine ⟨q, ?_, follows, app⟩
    rw [recvText, if_neg filled, received, Int.zero_add]

theorem text_round_trip_write :
    ∃ puts q, outputText 0x04 (ascii "%s%c%*s") [.ptr [107, 0], .int 0, .int 2, .ptr [34, 10, 9]] = .ok puts ∧
      recvText ⟨fun _ => true, fun _ _ => 0⟩ recorder ⟨.text, .init, ⟨.bol, [], 0, [], 0, false⟩, []⟩
        (puts.flatMap Put.bytes) = .ok ((puts.flatMap Put.bytes).length, q) ∧
      q.app = [(0x04, [107, 0, 34, 10])] := by
  have denotes : Denotes (ascii "%s%c%*s") [.ptr [107, 0], .int 0, .int 2, .ptr [34, 10, 9]]
      [107, 0, 34, 10] :=
    .str (by decide) (.byte 0 (.data 2 (by decide) .done))
  obtain ⟨puts, accepted⟩ : ∃ puts, outputText 0x04 (ascii "%s%c%*s")
      [.ptr [107, 0], .int 0, .int 2, .ptr [34, 10, 9]] = .ok puts := ⟨_, rfl⟩
  obtain ⟨-, q, received, -, app⟩ := @text_round_trip _ ⟨fun _ => true, fun _ _ => 0⟩ recorder _
    (fun _ => rfl) rfl ⟨.text, .init, ⟨.bol, [], 0, [], 0, false⟩, []⟩ rfl 0x04 (by decide) _ _ _
    (by decide) denotes _ accepted (by decide) (by decide)
  exact ⟨puts, q, accepted, received, app⟩

end Infod

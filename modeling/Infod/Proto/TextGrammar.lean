import Infod.Lib.Span
import Infod.Proto.TextStream

/-!
# The grammar of text lines

`Quoted` and `Args` are the grammar of a line's arguments and `Parses` that of a line, as
the decoder takes it. A parse is flawed where the decoder is more generous than the
protocol: an integer without digits, an argument right after the integer or the closing
quote of the one before it, or a NUL in the command word. The functions `readQuoted`,
`readArgs` and `readLine` read a line by the grammar, which shows that it has one reading only;
the decoder follows them.
-/

namespace Infod

open Span

/-! ### The grammar -/

/-- The byte of three octal digits. -/
def octalByte (a b c : UInt8) : UInt8 :=
  ((a.toNat - 48) * 64 + (b.toNat - 48) * 8 + (c.toNat - 48)).toUInt8

/-- The text between quotes, and the bytes it stands for. -/
inductive Quoted : List UInt8 → List UInt8 → Prop where
  | done : Quoted [] []
  | plain {ch : UInt8} {text bytes : List UInt8} (quote : ch ≠ chr '"') (backslash : ch ≠ chr '\\') :
    Quoted text bytes → Quoted (ch :: text) (ch :: bytes)
  | octal {a b c : UInt8} {text bytes : List UInt8} (octal : isOctal a ∧ isOctal b ∧ isOctal c) :
    Quoted text bytes → Quoted (chr '\\' :: a :: b :: c :: text) (octalByte a b c :: bytes)

def isSpace (ch : UInt8) : Bool := ch = chr ' '

def notSpace (ch : UInt8) : Bool := !isSpace ch

def isQuote (ch : UInt8) : Bool := ch = chr '"'

/-- The arguments for a format, in or before its optional part, with the blanks around
them, and the bytes they are packed into. -/
inductive Args : Bool → Bool → List TFmt → List UInt8 → List UInt8 → Prop where
  | done {optional : Bool} {fmt : List TFmt} {blanks : List UInt8} (blank : Blank blanks)
      (complete : optional = true ∨ fmt = []) : Args false optional fmt blanks []
  | bar {flawed optional : Bool} {fmt : List TFmt} {text data : List UInt8} :
    Args flawed true fmt text data → Args flawed optional (.bar :: fmt) text data
  | zero {flawed optional : Bool} {fmt : List TFmt} {text data : List UInt8} (filled : ¬ Blank text) :
    Args flawed optional fmt text data → Args flawed optional (.zero :: fmt) text (0 :: data)
  | int {flawed optional : Bool} {fmt : List TFmt} {blanks digits text data : List UInt8}
      (blank : Blank blanks) (nonempty : digits ≠ []) (decimal : ∀ ch ∈ digits, isDigit ch = true)
      (small : decValue 0 digits ≤ 255) (ends : Stops isDigit text) :
    Args flawed optional fmt text data →
      Args (flawed || blanks = []) optional (.i :: fmt) (blanks ++ digits ++ text)
        ((decValue 0 digits).toUInt8 :: data)
  -- an integer without digits
  | noDigits {flawed optional : Bool} {fmt : List TFmt} {blanks text data : List UInt8}
      (blank : Blank blanks) (nonempty : text ≠ []) (space : Stops isSpace text)
      (digit : Stops isDigit text) :
    Args flawed optional fmt text data → Args true optional (.i :: fmt) (blanks ++ text) (0 :: data)
  | quoted {flawed optional : Bool} {fmt : List TFmt} {blanks body bytes text data : List UInt8}
      (blank : Blank blanks) (quoted : Quoted body bytes) :
    Args flawed optional fmt text data →
      Args (flawed || blanks = []) optional (.t :: fmt)
        (blanks ++ (chr '"' :: body ++ [chr '"']) ++ text) (bytes ++ data)
  | word {flawed optional : Bool} {fmt : List TFmt} {blanks word text data : List UInt8}
      (blank : Blank blanks) (nonempty : word ≠ []) (plain : Stops isQuote word)
      (spaces : ∀ ch ∈ word, notSpace ch = true) (more : fmt ≠ []) (apart : Stops notSpace text) :
    Args flawed optional fmt text data →
      Args (flawed || blanks = []) optional (.t :: fmt) (blanks ++ word ++ text) (word ++ data)
  -- the last argument may have blanks inside
  | last {optional : Bool} {blanks bytes trailing : List UInt8}
      (blank : Blank blanks) (nonempty : bytes ≠ []) (plain : Stops isQuote bytes)
      (begins : Stops isSpace bytes) (ends : bytes.getLast? ≠ some (chr ' '))
      (blank' : Blank trailing) :
    Args (blanks = []) optional [.t] (blanks ++ bytes ++ trailing) bytes

/-- A line with a command and its arguments. The word is compared up to a NUL. -/
inductive Parses : Bool → List UInt8 → UInt8 → List UInt8 → Prop where
  | command {flawed : Bool} {blanks word text data : List UInt8} {entry : CmdEntry}
      (blank : Blank blanks) (inside : ∀ ch ∈ word, isWord ch = true) (apart : Stops notSpace text)
      (short : word.length < 16) (member : entry ∈ cmdtab) (named : entry.id ≠ pseudoHelp)
      (same : entry.word.map tolower = (cstr word).map tolower)
      (args : Args flawed false entry.fmt text data) :
    Parses (flawed || (0 : UInt8) ∈ word) (blanks ++ word ++ text) entry.id data

/-- The lines of the protocol. -/
def Strict (line : List UInt8) (id : UInt8) (data : List UInt8) : Prop := Parses false line id data

/-- The lines with a flaw. -/
def Sloppy (line : List UInt8) : Prop := ∃ id data, Parses true line id data

/-! ### Reading by the grammar -/

def readQuoted : List UInt8 → Option (List UInt8 × List UInt8)
  | [] => none
  | ch :: text =>
    if ch = chr '"' then some ([], text)
    else if ch = chr '\\' then
      match text with
      | a :: b :: c :: text =>
        if isOctal a ∧ isOctal b ∧ isOctal c then
          (readQuoted text).map fun (bytes, rest) => (octalByte a b c :: bytes, rest)
        else none
      | _ => none
    else (readQuoted text).map fun (bytes, rest) => (ch :: bytes, rest)

def readArgs : List TFmt → Bool → List UInt8 → Option (Bool × List UInt8)
  | [], _, text => if text.dropWhile isSpace = [] then some (false, []) else none
  | .bar :: fmt, _, text => readArgs fmt true text
  | .zero :: fmt, optional, text =>
    if text.dropWhile isSpace = [] then if optional then some (false, []) else none
    else (readArgs fmt optional text).map fun (flawed, data) => (flawed, 0 :: data)
  | .i :: fmt, optional, text =>
    let rest := text.dropWhile isSpace
    let digits := rest.takeWhile isDigit
    if rest = [] then if optional then some (false, []) else none
    else if digits = [] then (readArgs fmt optional rest).map fun (_, data) => (true, 0 :: data)
    else if decValue 0 digits ≤ 255 then
      (readArgs fmt optional (rest.dropWhile isDigit)).map fun (flawed, data) =>
        (flawed || text.takeWhile isSpace = [], (decValue 0 digits).toUInt8 :: data)
    else none
  | .t :: fmt, optional, text =>
    let rest := text.dropWhile isSpace
    match rest with
    | [] => if optional then some (false, []) else none
    | ch :: after =>
      if ch = chr '"' then
        (readQuoted after).bind fun (bytes, after) =>
          (readArgs fmt optional after).map fun (flawed, data) =>
            (flawed || text.takeWhile isSpace = [], bytes ++ data)
      else if fmt = [] then some (text.takeWhile isSpace = [], rest.rdropWhile (· == 32))
      else
        (readArgs fmt optional (rest.dropWhile notSpace)).map fun (flawed, data) =>
          (flawed || text.takeWhile isSpace = [], rest.takeWhile notSpace ++ data)

theorem blank_iff {text : List UInt8} : Blank text ↔ ∀ ch ∈ text, isSpace ch = true := by
  simp [Blank, isSpace]

theorem blank_iff_dropWhile {text : List UInt8} : Blank text ↔ text.dropWhile isSpace = [] := by
  rw [blank_iff, List.dropWhile_eq_nil_iff]

theorem readQuoted_of_quoted {body bytes : List UInt8} (quoted : Quoted body bytes) (rest : List UInt8) :
    readQuoted (body ++ chr '"' :: rest) = some (bytes, rest) := by
  induction quoted with
  | done =>
    unfold readQuoted
    exact if_pos rfl
  | plain quote backslash _ ih =>
    unfold readQuoted
    rw [List.cons_append]
    dsimp only
    rw [if_neg quote, if_neg backslash, ih]
    rfl
  | octal octal _ ih =>
    unfold readQuoted
    simp only [List.cons_append]
    rw [if_neg (by decide), if_pos trivial, if_pos octal, ih]
    rfl

theorem quoted_of_readQuoted {text bytes rest : List UInt8} (read : readQuoted text = some (bytes, rest)) :
    ∃ body, text = body ++ chr '"' :: rest ∧ Quoted body bytes := by
  fun_induction readQuoted text generalizing bytes with
  | case1 => cases read
  | case2 text =>
    cases read
    exact ⟨[], rfl, .done⟩
  | case3 a b c text octal _ ih =>
    obtain ⟨⟨bytes', rest'⟩, read', same⟩ := Option.map_eq_some_iff.mp read
    cases same
    obtain ⟨body, rfl, quoted⟩ := ih read'
    exact ⟨_ :: a :: b :: c :: body, rfl, .octal octal quoted⟩
  | case4 => cases read
  | case5 => cases read
  | case6 ch text quote backslash ih =>
    obtain ⟨⟨bytes', rest'⟩, read', same⟩ := Option.map_eq_some_iff.mp read
    cases same
    obtain ⟨body, rfl, quoted⟩ := ih read'
    exact ⟨ch :: body, rfl, .plain quote backslash quoted⟩

/-- Where only blanks are left. -/
theorem readArgs_blank {fmt : List TFmt} {optional : Bool} {text : List UInt8} (blank : Blank text)
    (complete : optional = true ∨ fmt = []) : readArgs fmt optional text = some (false, []) := by
  have none := blank_iff_dropWhile.mp blank
  induction fmt generalizing optional with
  | nil => rw [readArgs, if_pos none]
  | cons letter fmt ih =>
    have opt : optional = true := complete.resolve_right (by simp)
    subst opt
    cases letter with
    | bar => exact ih (.inl rfl)
    | zero => rw [readArgs, if_pos none, if_pos rfl]
    | i => simp only [readArgs, none, if_true]
    | t => simp only [readArgs, none, if_true]

theorem stops_of_mem {kind : UInt8 → Bool} {text : List UInt8} (nonempty : text ≠ []) (rest : List UInt8) :
    Stops kind (text ++ rest) ↔ Stops kind text := by
  obtain ⟨ch, text, rfl⟩ := List.exists_cons_of_ne_nil nonempty
  rfl

theorem isDigit_not_space {ch : UInt8} (digit : isDigit ch = true) : isSpace ch = false := by
  rw [isSpace, decide_eq_false_iff_not]
  rintro rfl
  exact absurd digit (by decide)

theorem readArgs_of_args {flawed optional : Bool} {fmt : List TFmt} {text data : List UInt8}
    (args : Args flawed optional fmt text data) : readArgs fmt optional text = some (flawed, data) := by
  induction args with
  | done blank complete => exact readArgs_blank blank complete
  | bar _ ih => exact ih
  | zero filled _ ih =>
    rw [readArgs, if_neg (blank_iff_dropWhile.not.mp filled), ih]
    rfl
  | @int flawed optional fmt blanks digits text data blank nonempty decimal small ends _ ih =>
    obtain ⟨ch, digits, rfl⟩ := List.exists_cons_of_ne_nil nonempty
    have stops : Stops isSpace (ch :: digits ++ text) :=
      stops_cons.mpr (isDigit_not_space (decimal ch List.mem_cons_self))
    rw [List.append_assoc, readArgs, takeWhile_append (blank_iff.mp blank) stops,
      dropWhile_append (blank_iff.mp blank) stops, takeWhile_append decimal ends,
      dropWhile_append decimal ends, if_neg (by simp), if_neg nonempty, if_pos small, ih]
    rfl
  | @noDigits flawed optional fmt blanks text data blank nonempty space digit _ ih =>
    rw [readArgs, dropWhile_append (blank_iff.mp blank) space, takeWhile_of_stops digit, if_neg nonempty,
      if_pos rfl, ih]
    rfl
  | @quoted flawed optional fmt blanks body bytes text data blank quoted _ ih =>
    have stops : Stops isSpace (chr '"' :: (body ++ chr '"' :: text)) := stops_cons.mpr (by decide)
    rw [show blanks ++ (chr '"' :: body ++ [chr '"']) ++ text = blanks ++ chr '"' :: (body ++ chr '"' :: text)
        by simp, readArgs, takeWhile_append (blank_iff.mp blank) stops,
      dropWhile_append (blank_iff.mp blank) stops]
    dsimp only
    rw [if_pos rfl, readQuoted_of_quoted quoted, Option.bind_some, ih]
    rfl
  | @word flawed optional fmt blanks word text data blank nonempty plain spaces more apart _ ih =>
    obtain ⟨ch, word, rfl⟩ := List.exists_cons_of_ne_nil nonempty
    have quote : ch ≠ chr '"' := by simpa [isQuote] using stops_cons.mp plain
    have stops : Stops isSpace (ch :: word ++ text) :=
      stops_cons.mpr (by simpa [notSpace] using spaces ch List.mem_cons_self)
    rw [List.append_assoc, readArgs, takeWhile_append (blank_iff.mp blank) stops,
      dropWhile_append (blank_iff.mp blank) stops, List.cons_append]
    dsimp only
    rw [if_neg quote, if_neg more, ← List.cons_append, takeWhile_append spaces apart,
      dropWhile_append spaces apart, ih]
    rfl
  | @last optional blanks bytes trailing blank nonempty plain begins ends blank' =>
    have stops : Stops isSpace (bytes ++ trailing) := (stops_of_mem nonempty trailing).mpr begins
    obtain ⟨ch, bytes, rfl⟩ := List.exists_cons_of_ne_nil nonempty
    have quote : ch ≠ chr '"' := by simpa [isQuote] using stops_cons.mp plain
    rw [List.append_assoc, readArgs, takeWhile_append (blank_iff.mp blank) stops,
      dropWhile_append (blank_iff.mp blank) stops, List.cons_append]
    dsimp only
    rw [if_neg quote, if_pos rfl, ← List.cons_append, rdropWhile_append]
    · intro ch member
      rw [blank' ch member]
      rfl
    · intro ch member
      rw [beq_eq_false_iff_ne]
      rintro rfl
      exact ends member

theorem takeWhile_isSpace_blank (text : List UInt8) : Blank (text.takeWhile isSpace) :=
  blank_iff.mpr fun _ member => List.mem_takeWhile_imp member

theorem args_of_readArgs {flawed optional : Bool} {fmt : List TFmt} {text data : List UInt8}
    (read : readArgs fmt optional text = some (flawed, data)) : Args flawed optional fmt text data := by
  induction fmt generalizing flawed optional text data with
  | nil =>
    rw [readArgs] at read
    split at read
    next none =>
      cases read
      exact .done (blank_iff_dropWhile.mpr none) (.inr rfl)
    next => cases read
  | cons letter fmt ih =>
    have whole : text.takeWhile isSpace ++ text.dropWhile isSpace = text := List.takeWhile_append_dropWhile
    have blank := takeWhile_isSpace_blank text
    have stops := stops_dropWhile isSpace text
    cases letter with
    | bar => exact .bar (ih read)
    | zero =>
      rw [readArgs] at read
      split at read
      next none =>
        split at read
        next opt =>
          cases read
          exact .done (blank_iff_dropWhile.mpr none) (.inl opt)
        next => cases read
      next filled =>
        obtain ⟨⟨flawed', data'⟩, read', same⟩ := Option.map_eq_some_iff.mp read
        cases same
        exact .zero (blank_iff_dropWhile.not.mpr filled) (ih read')
    | i =>
      rw [readArgs] at read
      by_cases none : text.dropWhile isSpace = []
      · rw [if_pos none] at read
        split at read
        next opt =>
          cases read
          exact .done (blank_iff_dropWhile.mpr none) (.inl opt)
        next => cases read
      rw [if_neg none] at read
      by_cases noDigits : (text.dropWhile isSpace).takeWhile isDigit = []
      · rw [if_pos noDigits] at read
        obtain ⟨⟨flawed', data'⟩, read', same⟩ := Option.map_eq_some_iff.mp read
        cases same
        have args := Args.noDigits blank none stops (stops_of_takeWhile noDigits) (ih read')
        rwa [whole] at args
      · rw [if_neg noDigits] at read
        split at read
        next small =>
          obtain ⟨⟨flawed', data'⟩, read', same⟩ := Option.map_eq_some_iff.mp read
          cases same
          have args := Args.int blank noDigits (fun _ member => List.mem_takeWhile_imp member) small
            (stops_dropWhile isDigit (text.dropWhile isSpace)) (ih read')
          rwa [List.append_assoc, List.takeWhile_append_dropWhile, whole] at args
        next => cases read
    | t =>
      rw [readArgs] at read
      dsimp only at read
      generalize rest_eq : text.dropWhile isSpace = rest at read stops whole
      cases rest with
      | nil =>
        dsimp only at read
        split at read
        next opt =>
          cases read
          exact .done (blank_iff_dropWhile.mpr rest_eq) (.inl opt)
        next => cases read
      | cons ch after =>
        dsimp only at read
        by_cases quote : ch = chr '"'
        · rw [if_pos quote] at read
          obtain ⟨⟨bytes, after'⟩, inner, read⟩ := Option.bind_eq_some_iff.mp read
          obtain ⟨⟨flawed', data'⟩, read', same⟩ := Option.map_eq_some_iff.mp read
          cases same
          obtain ⟨body, rfl, quoted⟩ := quoted_of_readQuoted inner
          subst quote
          have args := Args.quoted blank quoted (ih read')
          have same : text.takeWhile isSpace ++ (chr '"' :: body ++ [chr '"']) ++ after' = text := by
            refine Eq.trans ?_ whole
            simp
          rwa [same] at args
        rw [if_neg quote] at read
        have plain : Stops isQuote (ch :: after) := stops_cons.mpr (by simpa [isQuote] using quote)
        by_cases only : fmt = []
        · rw [if_pos only] at read
          cases read
          subst only
          have filled : (ch :: after).rdropWhile (· == 32) ≠ [] := by
            rw [Ne, List.rdropWhile_eq_nil_iff]
            intro all
            have space : ch = 32 := by simpa using all ch List.mem_cons_self
            exact absurd (stops_cons.mp stops) (by rw [space]; decide)
          have parts : (ch :: after).rdropWhile (· == 32) ++ (ch :: after).rtakeWhile (· == 32) = ch :: after :=
            List.rdropWhile_append_rtakeWhile
          have ends : ((ch :: after).rdropWhile (· == 32)).getLast? ≠ some (chr ' ') := by
            rw [List.getLast?_eq_some_getLast filled]
            intro same
            have last := List.rdropWhile_last_not (· == 32) (ch :: after) filled
            rw [Option.some.inj same] at last
            exact last (by decide)
          have trailing : Blank ((ch :: after).rtakeWhile (· == 32)) := by
            intro ch member
            have space := List.mem_rtakeWhile_imp member
            exact eq_of_beq space
          have args : Args _ optional [.t] _ _ := .last blank filled
            ((stops_of_mem filled _).mp (parts ▸ plain)) ((stops_of_mem filled _).mp (parts ▸ stops)) ends trailing
          rwa [List.append_assoc, parts, whole] at args
        · rw [if_neg only] at read
          obtain ⟨⟨flawed', data'⟩, read', same⟩ := Option.map_eq_some_iff.mp read
          cases same
          have parts : (ch :: after).takeWhile notSpace ++ (ch :: after).dropWhile notSpace = ch :: after :=
            List.takeWhile_append_dropWhile
          have filled : (ch :: after).takeWhile notSpace ≠ [] := by
            rw [List.takeWhile_cons_of_pos (by rw [notSpace, stops_cons.mp stops]; rfl)]
            simp
          have args := Args.word blank filled ((stops_of_mem filled _).mp (parts.symm ▸ plain))
            (fun _ member => List.mem_takeWhile_imp member) only
            (stops_dropWhile notSpace (ch :: after)) (ih read')
          rwa [List.append_assoc, parts, whole] at args

theorem args_iff {flawed optional : Bool} {fmt : List TFmt} {text data : List UInt8} :
    Args flawed optional fmt text data ↔ readArgs fmt optional text = some (flawed, data) :=
  ⟨readArgs_of_args, args_of_readArgs⟩

def readLine (line : List UInt8) : Option (Bool × UInt8 × List UInt8) :=
  let rest := line.dropWhile isSpace
  let word := rest.takeWhile isWord
  if word.length ≥ 16 then none
  else
    match cmdtab.find? fun entry => sameWord entry.word word with
    | none => none
    | some entry =>
      if entry.id = pseudoHelp then none
      else
        (readArgs entry.fmt false (rest.dropWhile isWord)).map fun (flawed, data) =>
          (flawed || (0 : UInt8) ∈ word, entry.id, data)

theorem find_word {word : List UInt8} {entry : CmdEntry} (member : entry ∈ cmdtab)
    (same : entry.word.map tolower = (cstr word).map tolower) :
    (cmdtab.find? fun entry => sameWord entry.word word) = some entry := by
  have unique : ∀ a ∈ cmdtab, ∀ b ∈ cmdtab, a.word.map tolower = b.word.map tolower → a = b := by
    decide +kernel
  have here : sameWord entry.word word = true := decide_eq_true same
  cases found : cmdtab.find? fun entry => sameWord entry.word word with
  | none => exact absurd here (List.find?_eq_none.mp found entry member)
  | some other =>
    have matched : sameWord other.word word = true := by simpa using List.find?_some found
    have also : other.word.map tolower = (cstr word).map tolower := of_decide_eq_true matched
    rw [unique other (List.mem_of_find?_eq_some found) entry member (also.trans same.symm)]

theorem readLine_of_parses {flawed : Bool} {line data : List UInt8} {id : UInt8}
    (parses : Parses flawed line id data) : readLine line = some (flawed, id, data) := by
  cases parses with
  | @command flawed blanks word text data entry blank inside apart short member named same args =>
    have nonempty : word ≠ [] := by
      rintro rfl
      have words : ∀ entry ∈ cmdtab, entry.word ≠ [] := by decide
      exact words entry member (List.map_eq_nil_iff.mp same)
    have stops : Stops isSpace (word ++ text) := by
      obtain ⟨ch, word, rfl⟩ := List.exists_cons_of_ne_nil nonempty
      have other := (isWord_iff.mp (inside ch List.mem_cons_self)).1
      exact stops_cons.mpr (by simpa [isSpace] using other)
    have ends : Stops isWord text := by
      intro ch first
      have space := apart ch first
      simp only [notSpace, isSpace, Bool.not_eq_false', decide_eq_true_eq] at space
      rw [space]
      decide
    rw [List.append_assoc, readLine, dropWhile_append (blank_iff.mp blank) stops,
      takeWhile_append inside ends, dropWhile_append inside ends]
    dsimp only
    rw [if_neg (by omega), find_word member same]
    dsimp only
    rw [if_neg named, args_iff.mp args]
    rfl

theorem parses_of_readLine {flawed : Bool} {line data : List UInt8} {id : UInt8} (within : Inside line)
    (read : readLine line = some (flawed, id, data)) : Parses flawed line id data := by
  rw [readLine] at read
  dsimp only at read
  split at read
  next => cases read
  next short =>
    split at read
    next => cases read
    next entry found =>
      split at read
      next => cases read
      next named =>
        obtain ⟨⟨flawed', data'⟩, read', same⟩ := Option.map_eq_some_iff.mp read
        cases same
        have matched : sameWord entry.word ((line.dropWhile isSpace).takeWhile isWord) = true := by
          simpa using List.find?_some found
        have apart : Stops notSpace ((line.dropWhile isSpace).dropWhile isWord) := by
          intro ch first
          have other := stops_dropWhile isWord (line.dropWhile isSpace) ch first
          have member : ch ∈ line := (List.dropWhile_suffix isSpace).subset
            ((List.dropWhile_suffix isWord).subset (List.mem_of_mem_head? first))
          have eol := within ch member
          simpa [isWord, notSpace, isSpace, eol] using other
        have parses := Parses.command (takeWhile_isSpace_blank line) (fun _ member => List.mem_takeWhile_imp member)
          apart (Nat.lt_of_not_le short) (List.mem_of_find?_eq_some found) named (of_decide_eq_true matched)
          (args_of_readArgs read')
        rwa [List.append_assoc, List.takeWhile_append_dropWhile, List.takeWhile_append_dropWhile] at parses

end Infod

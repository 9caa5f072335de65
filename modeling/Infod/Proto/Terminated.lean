import Infod.Proto.Outbuf
import Infod.Proto.Recv
import Infod.Proto.TextRefinement

/-!
# Messages end with a NUL

Whatever `realloc` does, `proto_recv` returns, the receive buffer stays within 64 KiB, and all
data that is handed to the application has a NUL behind it. The decoders may be called
again after a failure, so what they leave in the buffer then is part of the invariant.
-/

namespace Infod

/-! ### The receive buffer when memory may be short -/

namespace Rxbuf

/-- The buffer is not larger than 64 KiB. -/
def Small (rx : Rxbuf) : Prop := rx.max ≤ 0x10000

variable (heap : Heap) {rx : Rxbuf}

theorem len_le_max (rx : Rxbuf) : rx.len ≤ rx.max := Nat.le_add_right ..

theorem roundup_le {n : Nat} (small : n < 0x10000) : roundup n sizechunk ≤ 0x10000 := by
  rw [roundup, sizechunk]
  split <;> omega

/-- The contents are never given up, so the assertion holds. -/
theorem resize_any (small : rx.Small) {sz : Nat} (fits : rx.len ≤ sz) :
    ∃ ok rx', rx.resize heap sz = .ok (ok, rx') ∧ rx'.Small ∧ rx'.data = rx.data ∧
      (ok = true → sz ≤ rx'.max) := by
  have above := le_roundup sz sizechunk
  rw [resize]
  by_cases large : sz ≥ 0x10000
  · rw [if_pos large]
    exact ⟨false, rx, rfl, small, rfl, (by rintro ⟨⟩)⟩
  · have below : roundup sz sizechunk ≤ 0x10000 := roundup_le (by omega)
    rw [if_neg large]
    dsimp only
    rw [if_neg (by omega)]
    by_cases same : rx.max = roundup sz sizechunk
    · rw [if_pos same]
      exact ⟨true, rx, rfl, small, rfl, fun _ => same ▸ above⟩
    · rw [if_neg same]
      split
      · have size : (⟨rx.data, (rx.spare ++ (List.range (roundup sz sizechunk - rx.max)).map
            (heap.garbage rx.reallocs)).take (roundup sz sizechunk - rx.len), rx.reallocs + 1⟩ : Rxbuf).max =
            roundup sz sizechunk := by
          simp only [max, len, List.length_take, List.length_append, List.length_map,
            List.length_range] at above fits ⊢
          omega
        exact ⟨true, _, rfl, by rw [Small, size]; exact below, rfl, fun _ => by rw [size]; exact above⟩
      · exact ⟨false, _, rfl, small, rfl, (by rintro ⟨⟩)⟩

theorem add_any (small : rx.Small) (bytes : List UInt8) :
    ∃ ok rx', rx.add heap bytes = .ok (ok, rx') ∧ rx'.Small ∧
      rx'.data = if ok then rx.data ++ bytes else rx.data := by
  obtain ⟨ok, grown, resized, small', kept, room⟩ := resize_any heap small (Nat.le_add_right _ bytes.length)
  rw [add, resized, Except.ok_bind]
  cases ok with
  | false => exact ⟨false, grown, rfl, small', kept⟩
  | true =>
    have fits : grown.len + bytes.length ≤ grown.max := by
      rw [len, kept]
      exact room rfl
    obtain ⟨rx', stored, data, size⟩ := grown.store_spec bytes fits
    refine ⟨true, rx', Except.bind_ok stored rfl, ?_, ?_⟩
    · rw [Small, size]
      exact small'
    · rw [data, kept]
      rfl

theorem addc_any (small : rx.Small) (ch : UInt8) :
    ∃ ok rx', rx.addc heap ch = .ok (ok, rx') ∧ rx'.Small ∧
      rx'.data = if ok then rx.data ++ [ch] else rx.data := by
  have room : ∃ ok grown, (if rx.len ≥ rx.max then rx.resize heap (rx.len + 1) else .ok (true, rx)) =
      .ok (ok, grown) ∧ grown.Small ∧ grown.data = rx.data ∧ (ok = true → rx.len + 1 ≤ grown.max) := by
    split
    · exact resize_any heap small (Nat.le_succ _)
    · exact ⟨true, rx, rfl, small, rfl, fun _ => by omega⟩
  obtain ⟨ok, grown, resized, small', kept, room⟩ := room
  rw [addc, resized, Except.ok_bind]
  cases ok with
  | false => exact ⟨false, grown, rfl, small', kept⟩
  | true =>
    have fits : grown.len + [ch].length ≤ grown.max := by
      rw [len, kept]
      exact room rfl
    obtain ⟨rx', stored, data, size⟩ := grown.store_spec [ch] fits
    refine ⟨true, rx', Except.bind_ok stored rfl, ?_, ?_⟩
    · rw [Small, size]
      exact small'
    · rw [data, kept]
      rfl

theorem clear_any (small : rx.Small) (sz : Nat) :
    ∃ ok rx', rx.clear heap sz = .ok (ok, rx') ∧ rx'.Small ∧ rx'.data = [] := by
  have emptied : (⟨[], rx.data ++ rx.spare, rx.reallocs⟩ : Rxbuf).Small := by
    simpa [Small, max] using small
  obtain ⟨ok, rx', resized, small', kept, -⟩ := resize_any heap emptied (Nat.zero_le sz)
  exact ⟨ok, rx', resized, small', kept⟩

/-- A NUL follows what the buffer holds. -/
theorem zeropad_any (small : rx.Small) :
    ∃ ok rx', rx.zeropad heap = .ok (ok, rx') ∧ rx'.Small ∧ rx'.data = rx.data ∧
      (ok = true → rx'.spare.head? = some 0) := by
  obtain ⟨ok, grown, added, small', data⟩ := add_any heap small [0]
  rw [zeropad, added, Except.ok_bind]
  cases ok with
  | false => exact ⟨false, grown, rfl, small', data, (by rintro ⟨⟩)⟩
  | true =>
    have data : grown.data = rx.data ++ [0] := data
    refine ⟨true, _, rfl, ?_, ?_, fun _ => ?_⟩
    · simp only [Small, max, data, List.length_append, List.length_singleton] at small' ⊢
      simp
      omega
    · simp [data]
    · simp [data]

theorem trimspace_small (small : rx.Small) : rx.trimspace.Small := by
  rw [Small, trimspace_max]
  exact small

/-- The byte behind the contents, seen from the one at index `i`. -/
theorem memory_nul {i n : Nat} (nul : rx.spare.head? = some 0) (size : rx.data.length = i + n) :
    (rx.memory i)[n]? = some 0 := by
  rw [memory, List.getElem?_drop, ← size, List.getElem?_append_right (Nat.le_refl _), Nat.sub_self,
    ← List.head?_eq_getElem?]
  exact nul

end Rxbuf

/-- The buffer is within its bounds, and a message has a NUL behind it. -/
def RecvAct.Proper {α : Type} : RecvAct α → Prop
  | .buffer rx => rx.len ≤ rx.max ∧ rx.max ≤ 0x10000
  | .input _ _ memory datalen => memory[datalen]? = some 0
  | .eof _ => True

theorem bufferActs_proper {α : Type} {ok : Bool} {rx : Rxbuf} (small : rx.Small) :
    ∀ act ∈ (bufferActs (.ok (ok, rx)) : List (RecvAct α)), act.Proper := by
  intro act member
  cases List.mem_singleton.mp member
  exact ⟨rx.len_le_max, small⟩

/-! ### Text -/

/-- The states in which arguments are read. -/
def TState.inLine : TState → Bool
  | .error | .bol | .cmd => false
  | _ => true

section Text

variable {α : Type} (heap : Heap) (up : Upcalls α) {p q : Proto α} {bound : Nat}

/-- A command has been found: its ID is in the buffer, and what is left of its format is known. -/
structure Proto.Argued (p : Proto α) : Prop where
  word : p.t.cmd.length < 16
  table : TableFmt p.t.fmt
  command : ∃ id data, p.rx.data = id :: data ∧ id ≠ 32

/-- What the text decoder leaves behind, also when it fails. -/
structure Proto.Orderly (p : Proto α) : Prop where
  mode : p.mode = .text
  small : p.rx.Small
  word : p.t.state = .cmd → p.t.cmd.length < 16
  line : p.t.state.inLine = true → p.Argued

/-- How many turns there are at most in the state. -/
def Proto.turns (p : Proto α) : Nat :=
  match p.t.state with
  | .error | .bol => 1
  | .qstr | .qoct => 2
  | .argsp => 2 * p.t.fmt.length + 2
  | .int | .strbeg | .str => 2 * p.t.fmt.length + 3
  | .cmd => 12

def Turn.Safe (bound : Nat) : Turn α → Prop
  | .leave q | .return_ _ q => q.Orderly
  | .again q => q.Orderly ∧ q.turns < bound

/-- A turn that is safe, and what it does. -/
def Safely (bound : Nat) (result : Except ProtoFault (Turn α)) (acts : List (RecvAct α)) : Prop :=
  (∃ turn, result = .ok turn ∧ turn.Safe bound) ∧ ∀ act ∈ acts, act.Proper

theorem Proto.Orderly.error (orderly : p.Orderly) : (p.state .error).Orderly :=
  ⟨orderly.mode, orderly.small, nofun, nofun⟩

theorem Proto.Orderly.bol (orderly : p.Orderly) : (p.state .bol).Orderly :=
  ⟨orderly.mode, orderly.small, nofun, nofun⟩

theorem Proto.Orderly.app (orderly : p.Orderly) (app : α) : Proto.Orderly { p with app } :=
  ⟨orderly.mode, orderly.small, orderly.word, fun line =>
    ⟨(orderly.line line).word, (orderly.line line).table, (orderly.line line).command⟩⟩

theorem complain_any (mode : p.mode = .text) (code : ErrorCode) {text : List UInt8}
    (short : text.length ≤ 1000) : ∃ app, p.complain up code text = .ok { p with app } := by
  obtain ⟨⟨ret, app⟩, sent⟩ := protoOutputError_ok up p.app code short
  refine ⟨app, ?_⟩
  rw [Proto.complain, mode, sent, Except.ok_bind, ← mode, if_neg (by simp [mode])]
  rfl

/-- An error is complained about, and the rest of the line passed over. -/
theorem complain_again (orderly : p.Orderly) (code : ErrorCode) {text : List UInt8}
    (short : text.length ≤ 1000) (more : 1 < bound) :
    Safely bound (do
      let p ← p.complain up code text
      return .again (p.state .error)) [] := by
  obtain ⟨app, complained⟩ := complain_any up orderly.mode code short
  rw [complained]
  exact ⟨⟨_, rfl, (orderly.app app).error, more⟩, nofun⟩

theorem complain_leave (orderly : p.Orderly) (code : ErrorCode) {text : List UInt8}
    (short : text.length ≤ 1000) :
    Safely bound (do
      let p ← p.complain up code text
      return .leave (p.state .bol)) [] := by
  obtain ⟨app, complained⟩ := complain_any up orderly.mode code short
  rw [complained]
  exact ⟨⟨_, rfl, (orderly.app app).bol⟩, nofun⟩

/-- More bytes in the buffer. -/
theorem Proto.Argued.grow (argued : p.Argued) {rx : Rxbuf} {ok : Bool} {byte : UInt8}
    (data : rx.data = if ok then p.rx.data ++ [byte] else p.rx.data) : Proto.Argued { p with rx } := by
  obtain ⟨id, rest, split, apart⟩ := argued.command
  refine ⟨argued.word, argued.table, id, if ok then rest ++ [byte] else rest, ?_, apart⟩
  change rx.data = _
  rw [data, split]
  cases ok <;> rfl

theorem Proto.Argued.same (argued : p.Argued) {rx : Rxbuf} (data : rx.data = p.rx.data) :
    Proto.Argued { p with rx } :=
  ⟨argued.word, argued.table, data ▸ argued.command⟩

theorem addc_safe (small : p.rx.Small) (byte : UInt8) {next : Proto α → Turn α}
    (stays : ∀ rx ok, rx.Small → (rx.data = if ok then p.rx.data ++ [byte] else p.rx.data) →
      Proto.Orderly { p with rx } ∧ (ok = true → (next { p with rx }).Safe bound)) :
    Safely bound (p.addc heap byte next) (bufferActs (p.rx.addc heap byte)) := by
  obtain ⟨ok, rx, added, small', data⟩ := Rxbuf.addc_any heap small byte
  obtain ⟨orderly, goes⟩ := stays rx ok small' data
  rw [added, Proto.addc, added, Except.ok_bind]
  refine ⟨?_, bufferActs_proper small'⟩
  cases ok with
  | false => exact ⟨_, rfl, orderly⟩
  | true => exact ⟨_, rfl, goes rfl⟩

theorem Safely.mono {result : Except ProtoFault (Turn α)} {acts : List (RecvAct α)} {more : Nat}
    (safely : Safely bound result acts) (le : bound ≤ more) : Safely more result acts := by
  obtain ⟨⟨turn, ran, safe⟩, proper⟩ := safely
  refine ⟨⟨turn, ran, ?_⟩, proper⟩
  cases turn with
  | leave q => exact safe
  | return_ ret q => exact safe
  | again q => exact ⟨safe.1, Nat.lt_of_lt_of_le safe.2 le⟩

/-- The upcall for a line. -/
theorem endOfLine_safe (orderly : p.Orderly) (argued : p.Argued) :
    Safely bound (endOfLine heap up p) (endOfLineActs heap up p) := by
  rw [endOfLine, endOfLineActs]
  cases up.onInput with
  | none => exact ⟨⟨_, rfl, orderly.bol⟩, List.forall_mem_nil _⟩
  | some onInput =>
    obtain ⟨ok, rx, padded, small, data, nul⟩ := Rxbuf.zeropad_any heap orderly.small
    have orderly' : Proto.Orderly { p with rx } := by
      refine ⟨orderly.mode, small, orderly.word, fun _ => argued.same data⟩
    dsimp only
    rw [padded, Except.ok_bind]
    cases ok with
    | false => exact ⟨⟨_, rfl, orderly'⟩, bufferActs_proper small⟩
    | true =>
      refine ⟨?_, ?_⟩
      · simp only [Bool.not_true, Bool.false_eq_true, if_false]
        split
        · exact ⟨_, rfl, orderly'.app _⟩
        · exact ⟨_, rfl, (orderly'.app _).bol⟩
      · obtain ⟨id, rest, split, -⟩ := argued.command
        have length : rx.data.length = 1 + rest.length := by
          rw [data, split, List.length_cons, Nat.add_comm]
        have most : rx.data.length ≤ 0x10000 := Nat.le_trans rx.len_le_max small
        intro act member
        rcases List.mem_cons.mp member with rfl | later
        · exact ⟨rx.len_le_max, small⟩
        · split at later
          · cases later
          · cases List.mem_singleton.mp later
            refine Rxbuf.memory_nul (nul rfl) ?_
            rw [Rxbuf.len]
            omega

/-- The next argument begins. -/
theorem recvArg_safe (orderly : p.Orderly) (argued : p.Argued) (argsp : p.t.state = .argsp)
    (noBar : p.t.fmt.head? ≠ some .bar) (ch : UInt8) :
    Safely (2 * p.t.fmt.length + 2) (recvArg heap up p ch) (recvArgActs heap up p ch) := by
  have short : (cstr p.t.cmd).length ≤ 16 := Nat.le_trans (cstr_length_le _) (Nat.le_of_lt argued.word)
  rw [recvArg, recvArgActs]
  by_cases eol : isEol ch = true
  · rw [if_pos eol, if_pos eol]
    split
    · refine complain_leave up orderly _ ?_
      rw [List.length_append, List.length_append]
      exact Nat.le_trans (Nat.add_le_add_right (Nat.add_le_add_left short _) _) (by decide)
    · exact endOfLine_safe heap up orderly argued
  · rw [if_neg eol, if_neg eol]
    cases format : p.t.fmt with
    | nil =>
      refine complain_again up orderly _ ?_ (by simp)
      rw [List.length_append, List.length_append]
      exact Nat.le_trans (Nat.add_le_add_right (Nat.add_le_add_left short _) _) (by decide)
    | cons letter fmt =>
      have table : TableFmt fmt := TableFmt.tail (format ▸ argued.table)
      cases letter with
      | bar => exact absurd (by rw [format]; rfl) noBar
      | i =>
        refine ⟨⟨_, rfl, ⟨orderly.mode, orderly.small, (by rintro ⟨⟩), fun _ =>
          ⟨argued.word, table, argued.command⟩⟩, ?_⟩, List.forall_mem_nil _⟩
        simp only [Proto.turns, List.length_cons]
        omega
      | t =>
        refine ⟨⟨_, rfl, ⟨orderly.mode, orderly.small, (by rintro ⟨⟩), fun _ =>
          ⟨argued.word, table, argued.command⟩⟩, ?_⟩, List.forall_mem_nil _⟩
        simp only [Proto.turns, List.length_cons]
        omega
      | zero =>
        obtain ⟨ok, rx, added, small, data⟩ := Rxbuf.addc_any heap orderly.small 0
        have argued' : Proto.Argued { p with rx, t := { p.t with fmt } } :=
          ⟨argued.word, table, (argued.grow data).command⟩
        have orderly' : Proto.Orderly { p with rx, t := { p.t with fmt } } :=
          ⟨orderly.mode, small, orderly.word, fun _ => argued'⟩
        dsimp only
        rw [added, Except.ok_bind]
        refine ⟨?_, bufferActs_proper small⟩
        cases ok with
        | false => exact ⟨_, rfl, orderly'.error, by simp [Proto.turns, Proto.state]⟩
        | true =>
          refine ⟨_, rfl, orderly', ?_⟩
          simp only [Proto.turns, argsp, if_true, List.length_cons]
          omega

/-- Without a bar, the next argument is read right away. -/
theorem recvArgsp_other {ch : UInt8} (blank : ch ≠ chr ' ') (other : p.t.fmt.head? ≠ some .bar) :
    recvArgsp heap up p ch = recvArg heap up p ch := by
  rw [recvArgsp, if_neg blank]
  split
  next fmt format => exact absurd (by rw [format]; rfl) other
  next => rfl

theorem recvArgspActs_other {ch : UInt8} (blank : ch ≠ chr ' ') (other : p.t.fmt.head? ≠ some .bar) :
    recvArgspActs heap up p ch = recvArgActs heap up p ch := by
  rw [recvArgspActs, if_neg blank]
  split
  next fmt format => exact absurd (by rw [format]; rfl) other
  next => rfl

theorem recvArgsp_safe (orderly : p.Orderly) (argued : p.Argued) (argsp : p.t.state = .argsp) (ch : UInt8) :
    Safely (2 * p.t.fmt.length + 2) (recvArgsp heap up p ch) (recvArgspActs heap up p ch) := by
  by_cases blank : ch = chr ' '
  · rw [recvArgsp, recvArgspActs, if_pos blank, if_pos blank]
    exact ⟨⟨_, rfl, orderly⟩, List.forall_mem_nil _⟩
  · by_cases bar : p.t.fmt.head? = some .bar
    · obtain ⟨fmt, format⟩ := List.head?_eq_some_iff.mp bar
      have table : TableFmt fmt := TableFmt.tail (format ▸ argued.table)
      have argued' : Proto.Argued { p with t := { p.t with fmt, optional := true } } :=
        ⟨argued.word, table, argued.command⟩
      have orderly' : Proto.Orderly { p with t := { p.t with fmt, optional := true } } :=
        ⟨orderly.mode, orderly.small, orderly.word, fun _ => argued'⟩
      have safely := recvArg_safe heap up orderly' argued' argsp
        (TableFmt.single_bar (format ▸ argued.table)) ch
      rw [recvArgsp, recvArgspActs, if_neg blank, if_neg blank, format]
      refine safely.mono ?_
      simp only [List.length_cons]
      omega
    · rw [recvArgsp_other heap up blank bar, recvArgspActs_other heap up blank bar]
      exact recvArg_safe heap up orderly argued argsp bar ch

/-- The end of the word. -/
theorem recvWord_safe (orderly : p.Orderly) (state : p.t.state = .cmd) (ch : UInt8) :
    Safely 11 (recvWord heap up p ch) (recvWordActs heap up p ch) := by
  have short : (cstr p.t.cmd).length ≤ 16 :=
    Nat.le_trans (cstr_length_le _) (Nat.le_of_lt (orderly.word state))
  have orderly' (rx : Rxbuf) (small : rx.Small) : Proto.Orderly { p with rx } :=
    ⟨orderly.mode, small, orderly.word, fun line => by rw [state] at line; cases line⟩
  rw [recvWord, recvWordActs]
  cases found : cmdtab.find? fun entry => sameWord entry.word p.t.cmd with
  | none =>
    refine complain_again up orderly _ ?_ (by decide)
    rw [List.length_append, List.length_append]
    exact Nat.le_trans (Nat.add_le_add_right (Nat.add_le_add_left short _) _) (by decide)
  | some entry =>
    have member := List.mem_of_find?_eq_some found
    have apart : ∀ entry ∈ cmdtab, entry.id ≠ 32 := by decide
    obtain ⟨ok, rx, cleared, small, empty⟩ := Rxbuf.clear_any heap orderly.small 1
    dsimp only
    rw [cleared, Except.ok_bind]
    cases ok with
    | false => exact ⟨⟨_, rfl, orderly' rx small⟩, by simpa using bufferActs_proper small⟩
    | true =>
      obtain ⟨ok, rx', added, small', data⟩ := Rxbuf.addc_any heap small entry.id
      dsimp only
      rw [if_neg (by decide), added, Except.ok_bind]
      cases ok with
      | false =>
        refine ⟨⟨_, rfl, orderly' rx' small'⟩, fun act acts => ?_⟩
        rcases List.mem_append.mp acts with first | second
        · exact bufferActs_proper small act first
        · exact bufferActs_proper small' act (by simpa using second)
      | true =>
        have argued : Proto.Argued { p with rx := rx', t := { p.t with
            fmt := entry.fmt, optional := false, state := .argsp } } := by
          refine ⟨orderly.word state, ⟨entry, member, List.suffix_rfl⟩, entry.id, [], ?_, apart entry member⟩
          rw [data, empty]
          rfl
        have orderly'' : Proto.Orderly { p with rx := rx', t := { p.t with
            fmt := entry.fmt, optional := false, state := .argsp } } :=
          ⟨orderly.mode, small', (by rintro ⟨⟩), fun _ => argued⟩
        have safely := recvArgsp_safe heap up orderly'' argued rfl ch
        have enough := argued.table.length_le
        refine ⟨(safely.mono (by omega)).1, fun act acts => ?_⟩
        rcases List.mem_append.mp acts with first | later
        · exact bufferActs_proper small act first
        · rcases List.mem_append.mp later with second | last
          · exact bufferActs_proper small' act second
          · exact safely.2 act last

theorem recvCmd_safe (orderly : p.Orderly) (state : p.t.state = .cmd) (ch : UInt8) :
    Safely 12 (recvCmd heap up p ch) (recvCmdActs heap up p ch) := by
  rw [recvCmd, recvCmdActs]
  by_cases inside : ch ≠ chr ' ' ∧ !isEol ch
  · rw [if_pos inside, if_pos inside]
    dsimp only
    split
    next long =>
      -- a word of sixteen bytes is not kept
      have short : (ascii "long command").length ≤ 1000 := by decide
      obtain ⟨app, complained⟩ := complain_any up (p := { p with t := { p.t with cmd := p.t.cmd ++ [ch] } })
        orderly.mode .badMsg short
      rw [complained]
      exact ⟨⟨_, rfl, ⟨orderly.mode, orderly.small, (by rintro ⟨⟩), (by rintro ⟨⟩)⟩, (by decide : 1 < 12)⟩, List.forall_mem_nil _⟩
    next fits =>
      refine ⟨⟨_, rfl, orderly.mode, orderly.small, fun _ => Nat.lt_of_not_le fits, fun line => ?_⟩, List.forall_mem_nil _⟩
      simp [state, TState.inLine] at line
  · rw [if_neg inside, if_neg inside]
    exact (recvWord_safe heap up orderly state ch).mono (by decide)

theorem recvBol_safe (orderly : p.Orderly) (ch : UInt8) :
    Safely 1 (recvBol heap up p ch) [] := by
  rw [recvBol]
  by_cases blank : ch = chr ' ' ∨ isEol ch = true
  · rw [if_pos blank]
    exact ⟨⟨_, rfl, orderly⟩, List.forall_mem_nil _⟩
  · obtain ⟨notBlank, notEol⟩ := not_or.mp blank
    rw [if_neg blank, recvCmd, if_pos ⟨notBlank, by simpa using notEol⟩]
    exact ⟨⟨_, rfl, ⟨orderly.mode, orderly.small, fun _ => (by decide : 1 < 16), (by rintro ⟨⟩)⟩⟩, List.forall_mem_nil _⟩

theorem recvInt_safe (orderly : p.Orderly) (state : p.t.state = .int) (ch : UInt8) :
    Safely (2 * p.t.fmt.length + 3) (recvInt heap up p ch) (recvIntActs heap p ch) := by
  have argued := orderly.line (by rw [state]; rfl)
  rw [recvInt, recvIntActs]
  split
  next digit =>
    have orderly' (intval : Nat) : Proto.Orderly { p with t := { p.t with intval } } :=
      ⟨orderly.mode, orderly.small, orderly.word, fun _ => ⟨argued.word, argued.table, argued.command⟩⟩
    dsimp only
    split
    · exact complain_again up (orderly' _) _ (by decide) (by omega)
    · exact ⟨⟨_, rfl, orderly' _⟩, List.forall_mem_nil _⟩
  next =>
    refine addc_safe heap orderly.small _ fun rx ok small data => ?_
    have argued' := argued.grow data
    refine ⟨⟨orderly.mode, small, orderly.word, fun _ => argued'⟩, fun _ => ⟨?_, ?_⟩⟩
    · exact ⟨orderly.mode, small, (by rintro ⟨⟩), fun _ => ⟨argued'.word, argued'.table, argued'.command⟩⟩
    · simp [Proto.turns, Proto.state]

/-- The ID at the front is not a blank, so it stays. -/
theorem Proto.Argued.trimspace (argued : p.Argued) : Proto.Argued { p with rx := p.rx.trimspace } := by
  obtain ⟨id, rest, split, apart⟩ := argued.command
  have filled : p.rx.data.rdropWhile (· == 32) ≠ [] := by
    rw [Ne, List.rdropWhile_eq_nil_iff, split]
    exact fun blank => apart (by simpa using blank id List.mem_cons_self)
  obtain ⟨first, trimmed, start⟩ := List.exists_cons_of_ne_nil filled
  have front : first :: trimmed <+: id :: rest := by
    rw [← start, ← split]
    exact List.rdropWhile_prefix _ _
  obtain ⟨rfl, -⟩ := List.cons_prefix_cons.mp front
  exact ⟨argued.word, argued.table, first, trimmed, start, apart⟩

theorem recvStr_safe (orderly : p.Orderly) (argued : p.Argued) (ch : UInt8) :
    Safely (2 * p.t.fmt.length + 3) (recvStr heap p ch) (recvStrActs heap p ch) := by
  rw [recvStr, recvStrActs]
  split
  · have trimmed : Proto.Argued { p with rx := if p.t.fmt = [] then p.rx.trimspace else p.rx } ∧
        (if p.t.fmt = [] then p.rx.trimspace else p.rx).Small := by
      split
      · exact ⟨argued.trimspace, Rxbuf.trimspace_small orderly.small⟩
      · exact ⟨argued, orderly.small⟩
    obtain ⟨argued', small⟩ := trimmed
    refine ⟨⟨_, rfl, ⟨orderly.mode, small, (by rintro ⟨⟩), fun _ => ⟨argued'.word, argued'.table, argued'.command⟩⟩, ?_⟩,
      fun act acts => ?_⟩
    · simp [Proto.turns, Proto.state]
    · cases List.mem_singleton.mp acts
      exact ⟨Rxbuf.len_le_max _, small⟩
  · refine addc_safe heap orderly.small _ fun rx ok small data => ?_
    have orderly' : Proto.Orderly { p with rx } :=
      ⟨orderly.mode, small, orderly.word, fun _ => argued.grow data⟩
    exact ⟨orderly', fun _ => orderly'⟩

theorem recvQstr_safe (orderly : p.Orderly) (state : p.t.state = .qstr) (ch : UInt8) :
    Safely 2 (recvQstr heap up p ch) (recvQstrActs heap p ch) := by
  have argued := orderly.line (by rw [state]; rfl)
  rw [recvQstr, recvQstrActs]
  by_cases eol : isEol ch = true
  · rw [if_pos eol, if_pos (.inl eol)]
    exact complain_leave up orderly _ (by decide)
  · rw [if_neg eol]
    by_cases escape : ch = chr '\\'
    · rw [if_pos escape, if_pos (.inr (.inl escape))]
      exact ⟨⟨_, rfl, orderly.mode, orderly.small, (by rintro ⟨⟩), fun _ =>
        ⟨argued.word, argued.table, argued.command⟩⟩, List.forall_mem_nil _⟩
    · rw [if_neg escape]
      by_cases quote : ch = chr '"'
      · rw [if_pos quote, if_pos (.inr (.inr quote))]
        exact ⟨⟨_, rfl, orderly.mode, orderly.small, (by rintro ⟨⟩), fun _ =>
          ⟨argued.word, argued.table, argued.command⟩⟩, List.forall_mem_nil _⟩
      · rw [if_neg quote, if_neg (by simp [eol, escape, quote])]
        refine addc_safe heap orderly.small _ fun rx ok small data => ?_
        have orderly' : Proto.Orderly { p with rx } :=
          ⟨orderly.mode, small, orderly.word, fun _ => argued.grow data⟩
        exact ⟨orderly', fun _ => orderly'⟩

theorem recvQoct_safe (orderly : p.Orderly) (state : p.t.state = .qoct) (ch : UInt8) :
    Safely 2 (recvQoct heap up p ch) (recvQoctActs heap p ch) := by
  have argued := orderly.line (by rw [state]; rfl)
  rw [recvQoct, recvQoctActs]
  split
  · exact complain_again up orderly _ (by decide) (by decide)
  · have argued' (intval : Nat) (counter : UInt8) :
        Proto.Argued { p with t := { p.t with intval, counter } } :=
      ⟨argued.word, argued.table, argued.command⟩
    dsimp only
    split
    · refine addc_safe heap (p := { p with t := { p.t with
        intval := (p.t.intval <<< 3 ||| (ch.toNat - 48)) % 2 ^ 16, counter := p.t.counter - 1 } })
        orderly.small _ fun rx ok small data => ?_
      have grown := (argued' _ _).grow data
      exact ⟨⟨orderly.mode, small, orderly.word, fun _ => grown⟩, fun _ =>
        ⟨orderly.mode, small, (by rintro ⟨⟩), fun _ => ⟨grown.word, grown.table, grown.command⟩⟩⟩
    · exact ⟨⟨_, rfl, orderly.mode, orderly.small, orderly.word, fun _ => argued' _ _⟩, List.forall_mem_nil _⟩

/-- One turn. -/
theorem recvTurn_safe (orderly : p.Orderly) (ch : UInt8) :
    Safely p.turns (recvTurn heap up p ch) (recvTurnActs heap up p ch) := by
  rw [recvTurn, recvTurnActs, Proto.turns]
  cases state : p.t.state with
  | error =>
    dsimp only
    split
    · exact recvBol_safe heap up orderly.bol ch
    · exact ⟨⟨_, rfl, orderly⟩, List.forall_mem_nil _⟩
  | bol => exact recvBol_safe heap up orderly ch
  | cmd => exact recvCmd_safe heap up orderly state ch
  | argsp => exact recvArgsp_safe heap up orderly (orderly.line (by rw [state]; rfl)) state ch
  | int => exact recvInt_safe heap up orderly state ch
  | strbeg =>
    have argued := orderly.line (by rw [state]; rfl)
    have argued' (state : TState) : (p.state state).Argued := ⟨argued.word, argued.table, argued.command⟩
    dsimp only
    split
    · exact ⟨⟨_, rfl, orderly.mode, orderly.small, (by rintro ⟨⟩), fun _ => argued' _⟩, List.forall_mem_nil _⟩
    · have orderly' : (p.state .str).Orderly := ⟨orderly.mode, orderly.small, (by rintro ⟨⟩), fun _ => argued' _⟩
      exact recvStr_safe heap orderly' (argued' _) ch
  | str => exact recvStr_safe heap orderly (orderly.line (by rw [state]; rfl)) ch
  | qstr => exact recvQstr_safe heap up orderly state ch
  | qoct => exact recvQoct_safe heap up orderly state ch

theorem recvTurns_safe (orderly : p.Orderly) (ch : UInt8) (fuel : Nat) (enough : p.turns ≤ fuel) :
    (∃ ret q, recvTurns heap up fuel p ch = .ok (ret, q) ∧ q.Orderly) ∧
      ∀ act ∈ recvTurnsActs heap up fuel p ch, act.Proper := by
  induction fuel generalizing p with
  | zero =>
    have positive : 0 < p.turns := by
      rw [Proto.turns]
      split <;> omega
    omega
  | succ fuel ih =>
    obtain ⟨⟨turn, ran, safe⟩, proper⟩ := recvTurn_safe heap up orderly ch
    rw [recvTurns, recvTurnsActs, ran, Except.ok_bind]
    cases turn with
    | leave q => exact ⟨⟨1, q, rfl, safe⟩, by simpa using proper⟩
    | return_ ret q => exact ⟨⟨ret, q, rfl, safe⟩, by simpa using proper⟩
    | again q =>
      obtain ⟨result, later⟩ := ih safe.1 (by have := safe.2; omega)
      exact ⟨result, fun act acts => (List.mem_append.mp acts).elim (proper act) (later act)⟩

theorem Proto.Orderly.turns_le (orderly : p.Orderly) : p.turns ≤ 12 := by
  have few (line : p.t.state.inLine = true) : p.t.fmt.length ≤ 4 := (orderly.line line).table.length_le
  rw [Proto.turns]
  cases state : p.t.state with
  | argsp | int | strbeg | str =>
    have := few (by rw [state]; rfl)
    dsimp only
    omega
  | _ => simp

theorem recvBytes_safe (orderly : p.Orderly) (net : List UInt8) (ret : Int) :
    (∃ ret' q, recvBytes heap up net ret p = .ok (ret', q) ∧ q.Orderly) ∧
      ∀ act ∈ recvBytesActs heap up net p, act.Proper := by
  induction net generalizing p ret with
  | nil => exact ⟨⟨ret, p, rfl, orderly⟩, nofun⟩
  | cons ch net ih =>
    obtain ⟨⟨n, q, ran, orderly'⟩, proper⟩ := recvTurns_safe heap up orderly ch 12 orderly.turns_le
    have ran : recvText1ch heap up p ch = .ok (n, q) := ran
    rw [recvBytes, recvBytesActs, ran, Except.ok_bind]
    dsimp only
    split
    · exact ⟨⟨n, q, rfl, orderly'⟩, by simpa using proper⟩
    · obtain ⟨result, later⟩ := ih orderly' (ret + n)
      exact ⟨result, fun act acts => (List.mem_append.mp acts).elim (proper act) (later act)⟩

end Text

/-! ### Binary -/

/-- What the binary decoder leaves in the buffer: a part of a packet, or all of it. -/
structure Rxbuf.Packet (rx : Rxbuf) : Prop where
  small : rx.Small
  within : rx.data.length < 3 ∨ rx.data.length ≤ 3 + declared rx.data

section Binary

variable {α : Type} (heap : Heap) (up : Upcalls α) {p q : Proto α}

theorem binaryWant_any {rx : Rxbuf} (packet : rx.Packet) :
    ∃ ok grown, binaryWant heap rx = .ok (ok, missing rx.data, grown) ∧ grown.Small ∧
      grown.data = rx.data := by
  rw [binaryWant, missing]
  by_cases header : rx.data.length < 3
  · obtain ⟨ok, grown, resized, small, kept, -⟩ :=
      Rxbuf.resize_any heap packet.small (Nat.le_of_lt header : rx.len ≤ 3)
    rw [Rxbuf.len, if_pos header, if_pos header, resized]
    exact ⟨ok, grown, rfl, small, kept⟩
  · have within := packet.within.resolve_left header
    have size : binaryPktLen rx = declared rx.data := binaryPktLen_eq (by omega)
    have most := declared_lt rx.data
    obtain ⟨ok, grown, resized, small, kept, -⟩ :=
      Rxbuf.resize_any heap packet.small (within : rx.len ≤ 3 + declared rx.data)
    rw [Rxbuf.len, if_neg header, if_neg header, size, resized]
    have want : (2 ^ 32 + 3 + declared rx.data - rx.data.length) % 2 ^ 32 =
        3 + declared rx.data - rx.data.length := by omega
    exact ⟨ok, grown, by rw [← want]; rfl, small, kept⟩

theorem Rxbuf.Packet.of_empty {rx : Rxbuf} (small : rx.Small) (empty : rx.data = []) : rx.Packet :=
  ⟨small, .inl (by rw [empty]; decide)⟩

/-- The bytes that were missing may follow. -/
theorem Rxbuf.Packet.grow {rx rx' : Rxbuf} (packet : rx.Packet) (small : rx'.Small) {more : List UInt8}
    (few : more.length ≤ missing rx.data) {ok : Bool}
    (data : rx'.data = if ok then rx.data ++ more else rx.data) : rx'.Packet := by
  refine ⟨small, ?_⟩
  cases ok with
  | false =>
    rw [show rx'.data = rx.data from data]
    exact packet.within
  | true =>
    rw [show rx'.data = rx.data ++ more from data, List.length_append]
    by_cases header : rx.data.length < 3
    · rw [missing, if_pos header] at few
      omega
    · rw [missing, if_neg header] at few
      rw [declared_append (by omega)]
      have := packet.within.resolve_left header
      omega

/-- A binary connection between calls and rounds. -/
structure Proto.Packeted (p : Proto α) : Prop where
  mode : p.mode = .binary
  packet : p.rx.Packet

/-- What a round may end in. Only a packet that was complete before is handled without a byte. -/
def BinaryRound.Safe (complete : Prop) : BinaryRound α → Prop
  | .return_ _ q => q.Packeted
  | .next take _ q => q.Packeted ∧ Partial q.rx.data ∧ (0 < take ∨ complete)

theorem partial_nil : Partial [] := .inl (by decide)

/-- A complete packet is delivered, and the buffer cleared, unless the round is the last. -/
theorem binaryDeliver_safe (packeted : p.Packeted) (full : p.rx.data.length = 3 + declared p.rx.data)
    (take : Nat) {complete : Prop} (progress : 0 < take ∨ complete) :
    (∃ round, binaryDeliver heap up p take = .ok round ∧ round.Safe complete) ∧
      ∀ act ∈ binaryDeliverActs heap up p, act.Proper := by
  have cleared {rx : Rxbuf} (small : rx.Small) (app : α) (n : Int) :
      ∃ ok rx', rx.clear heap 3 = .ok (ok, rx') ∧ rx'.Small ∧
        (if ok then .next take n { p with rx := rx', app } else .return_ (-1) { p with rx := rx', app } :
          BinaryRound α).Safe complete := by
    obtain ⟨ok, rx', ran, small', empty⟩ := Rxbuf.clear_any heap small 3
    have packeted' : Proto.Packeted { p with rx := rx', app } := ⟨packeted.mode, .of_empty small' empty⟩
    refine ⟨ok, rx', ran, small', ?_⟩
    cases ok with
    | false => exact packeted'
    | true => exact ⟨packeted', empty ▸ partial_nil, progress⟩
  rw [binaryDeliver, binaryDeliverActs]
  cases up.onInput with
  | none =>
    obtain ⟨ok, rx', ran, small', safe⟩ := cleared packeted.packet.small p.app 0
    dsimp only
    rw [ran, Except.ok_bind]
    exact ⟨⟨_, rfl, safe⟩, bufferActs_proper small'⟩
  | some onInput =>
    obtain ⟨ok, rx, padded, small, data, nul⟩ := Rxbuf.zeropad_any heap packeted.packet.small
    have packet : rx.Packet := ⟨small, data ▸ packeted.packet.within⟩
    dsimp only
    rw [padded, Except.ok_bind]
    cases ok with
    | false => exact ⟨⟨_, rfl, packeted.mode, packet⟩, by simpa using bufferActs_proper small⟩
    | true =>
      have input : (RecvAct.input p.app (rx.data.headD 0) (rx.memory 3) (binaryPktLen p.rx)).Proper := by
        refine Rxbuf.memory_nul (nul rfl) ?_
        rw [data, binaryPktLen_eq (by omega)]
        exact full
      dsimp only
      rw [if_neg (by decide)]
      obtain ⟨ok, rx', ran, small', safe⟩ := cleared small (onInput p.app (rx.data.headD 0) (rx.data.drop 3)).2
        (onInput p.app (rx.data.headD 0) (rx.data.drop 3)).1
      rw [ran, Except.ok_bind]
      split
      · refine ⟨⟨_, rfl, packeted.mode, packet⟩, fun act acts => ?_⟩
        rcases List.mem_append.mp acts with pad | call
        · exact bufferActs_proper small act pad
        · cases List.mem_singleton.mp call
          exact input
      · refine ⟨⟨_, rfl, safe⟩, fun act acts => ?_⟩
        rcases List.mem_append.mp acts with pad | later
        · exact bufferActs_proper small act pad
        · rcases List.mem_cons.mp later with rfl | clear
          · exact input
          · exact bufferActs_proper small' act clear

/-- One round. The result of `rxbuf_add` is not looked at: without memory its bytes are lost. -/
theorem binaryRound_safe (packeted : p.Packeted) {net : List UInt8} (more : net ≠ []) :
    (∃ round, binaryRound heap up p net = .ok round ∧ round.Safe (¬ Partial p.rx.data)) ∧
      ∀ act ∈ binaryRoundActs heap up p net, act.Proper := by
  obtain ⟨ok, rx, wanted, small, data⟩ := binaryWant_any heap packeted.packet
  have packet : rx.Packet := ⟨small, data ▸ packeted.packet.within⟩
  have grown : ∀ act ∈ (bufferActs (.ok (ok, rx)) : List (RecvAct α)), act.Proper := bufferActs_proper small
  rw [binaryRound, binaryRoundActs, wanted, Except.ok_bind]
  dsimp only
  cases ok with
  | false => exact ⟨⟨_, rfl, packeted.mode, packet⟩, grown⟩
  | true =>
    have progress : 0 < min (missing p.rx.data) net.length ∨ ¬ Partial p.rx.data := by
      by_cases part : Partial p.rx.data
      · have := missing_pos part
        have := List.length_pos_of_ne_nil more
        exact .inl (by omega)
      · exact .inr part
    obtain ⟨ok, rx', added, small', data'⟩ :=
      Rxbuf.add_any heap small (net.take (min (missing p.rx.data) net.length))
    have packet' : rx'.Packet := by
      refine packet.grow small' ?_ data'
      rw [data, List.length_take]
      omega
    rw [if_neg (by decide), if_neg (by decide), added, Except.ok_bind]
    dsimp only
    split
    next full =>
      have full : rx'.data.length = 3 + declared rx'.data := by
        rw [← binaryPktLen_eq full.1]
        exact full.2
      obtain ⟨delivered, later⟩ := binaryDeliver_safe heap up (p := { p with rx := rx' })
        ⟨packeted.mode, packet'⟩ full (min (missing p.rx.data) net.length) progress
      refine ⟨delivered, fun act acts => ?_⟩
      rcases List.mem_cons.mp acts with rfl | acts
      · exact ⟨rx.len_le_max, small⟩
      · exact (List.mem_append.mp acts).elim (bufferActs_proper small' act) (later act)
    next part =>
      have part : Partial rx'.data := by
        by_cases header : rx'.data.length < 3
        · exact .inl header
        · have size : binaryPktLen rx' = declared rx'.data := binaryPktLen_eq (by omega)
          rw [size] at part
          have within := packet'.within.resolve_left header
          refine .inr (Nat.lt_of_le_of_ne within fun full => part ⟨Nat.not_lt.mp header, full⟩)
      refine ⟨⟨_, rfl, ⟨packeted.mode, packet'⟩, part, progress⟩, fun act acts => ?_⟩
      rcases List.mem_cons.mp acts with rfl | acts
      · exact ⟨rx.len_le_max, small⟩
      · exact bufferActs_proper small' act (by simpa using acts)

theorem binaryRounds_safe (packeted : p.Packeted) (net : List UInt8) (ret : Int) (fuel : Nat)
    (enough : net.length + 1 ≤ fuel ∨ Partial p.rx.data ∧ net.length ≤ fuel) :
    (∃ ret' q, binaryRounds heap up fuel net ret p = .ok (ret', q) ∧ q.Packeted) ∧
      ∀ act ∈ binaryRoundsActs heap up fuel net p, act.Proper := by
  induction fuel generalizing p net ret with
  | zero =>
    obtain rfl : net = [] := List.eq_nil_of_length_eq_zero (by omega)
    exact ⟨⟨ret, p, by rw [binaryRounds], packeted⟩, by simp [binaryRoundsActs]⟩
  | succ fuel ih =>
    cases net with
    | nil => exact ⟨⟨ret, p, rfl, packeted⟩, nofun⟩
    | cons ch net =>
      obtain ⟨⟨round, ran, safe⟩, proper⟩ := binaryRound_safe heap up packeted (List.cons_ne_nil ch net)
      rw [binaryRounds, binaryRoundsActs, ran, Except.ok_bind]
      cases round with
      | return_ ret q => exact ⟨⟨ret, q, rfl, safe⟩, by simpa using proper⟩
      | next take n q =>
        obtain ⟨packeted', part, progress⟩ := safe
        have fewer : Partial q.rx.data ∧ ((ch :: net).drop take).length ≤ fuel := by
          refine ⟨part, ?_⟩
          rw [List.length_drop, List.length_cons]
          rw [List.length_cons] at enough
          rcases enough with many | ⟨was, many⟩
          · omega
          · have := progress.resolve_right (not_not.mpr was)
            omega
        obtain ⟨result, later⟩ := ih packeted' _ (ret + take + n) (.inr fewer)
        exact ⟨result, fun act acts => (List.mem_append.mp acts).elim (proper act) (later act)⟩

end Binary

/-! ### All modes -/

/-- What `proto_recv` leaves behind, in each mode. -/
structure Proto.Sane {α : Type} (p : Proto α) : Prop where
  small : p.rx.Small
  text : p.mode = .text → p.Orderly
  binary : p.mode = .binary → p.Packeted
  unknown : p.mode = .unknown → p.rx.data = [] ∧ p.t.state = .bol

theorem Rxbuf.init_small : Rxbuf.init.Small := Nat.zero_le _

/-- A new `proto`, in a mode that may have been set. -/
theorem Proto.Sane.new {α : Type} (mode : Mode) {t : TextProto} (bol : t.state = .bol) (app : α) :
    Proto.Sane ⟨mode, .init, t, app⟩ where
  small := Rxbuf.init_small
  text text := by
    refine ⟨text, Rxbuf.init_small, fun cmd => ?_, fun line => ?_⟩
    · cases bol.symm.trans cmd
    · rw [bol] at line
      cases line
  binary binary := ⟨binary, .of_empty Rxbuf.init_small rfl⟩
  unknown _ := ⟨rfl, bol⟩

section Recv

variable {α : Type} (heap : Heap) (up : Upcalls α) {p : Proto α}

theorem Proto.Sane.app (sane : p.Sane) (app : α) : Proto.Sane { p with app } :=
  ⟨sane.small, fun text => (sane.text text).app app, fun binary => ⟨binary, (sane.binary binary).packet⟩,
    sane.unknown⟩

theorem Proto.Orderly.sane (orderly : p.Orderly) : p.Sane where
  small := orderly.small
  text _ := orderly
  binary mode := by cases orderly.mode.symm.trans mode
  unknown mode := by cases orderly.mode.symm.trans mode

theorem Proto.Packeted.sane (packeted : p.Packeted) : p.Sane where
  small := packeted.packet.small
  text mode := by cases packeted.mode.symm.trans mode
  binary _ := packeted
  unknown mode := by cases packeted.mode.symm.trans mode

/-- The mode that is detected suits the buffer, which is empty then. -/
theorem Proto.Sane.detect (sane : p.Sane) (ch : UInt8) : (p.detect ch).Sane ∧ (p.detect ch).mode ≠ .unknown := by
  rw [Proto.detect]
  by_cases unknown : p.mode = .unknown
  · obtain ⟨empty, bol⟩ := sane.unknown unknown
    rw [if_pos unknown]
    by_cases text : looksText ch = true
    · rw [if_pos text]
      refine ⟨Proto.Orderly.sane ⟨rfl, sane.small, fun cmd => ?_, fun line => ?_⟩, nofun⟩
      · cases bol.symm.trans cmd
      · rw [bol] at line
        cases line
    · rw [if_neg text]
      exact ⟨Proto.Packeted.sane ⟨rfl, .of_empty sane.small empty⟩, nofun⟩
  · rw [if_neg unknown]
    exact ⟨sane, unknown⟩

theorem recvFramed_safe (sane : p.Sane) (net : List UInt8) :
    (∃ ret q, recvFramed up p net = (ret, q) ∧ q.Sane) ∧ ∀ act ∈ recvFramedActs up p net 0, act.Proper := by
  rw [recvFramed, recvFramedActs.eq_def]
  cases up.onInput with
  | none => exact ⟨⟨_, _, rfl, sane⟩, by simp⟩
  | some onInput =>
    cases net with
    | nil => exact ⟨⟨_, _, rfl, sane.app _⟩, by simp [RecvAct.Proper]⟩
    | cons msg data => exact ⟨⟨_, _, rfl, sane.app _⟩, by simp [RecvAct.Proper]⟩

/-- A call returns, whatever memory there is, and all it does is proper. -/
theorem protoRecv_safe (sane : p.Sane) (net : List UInt8) (pad : UInt8) :
    (∃ ret q, protoRecv heap up p net pad = .ok (ret, q) ∧ q.Sane) ∧
      ∀ act ∈ protoRecvActs heap up p net pad, act.Proper := by
  cases net with
  | nil =>
    rw [protoRecv, protoRecvActs]
    cases up.onInput with
    | none => exact ⟨⟨0, p, rfl, sane⟩, nofun⟩
    | some onInput =>
      refine ⟨⟨0, _, rfl, sane.app _⟩, fun act acts => ?_⟩
      cases List.mem_singleton.mp acts
      trivial
  | cons ch net =>
    rw [protoRecv, protoRecvActs]
    by_cases padded : pad = 0
    · obtain ⟨sane, known⟩ := sane.detect ch
      subst padded
      rw [if_neg (by decide), if_neg (by decide)]
      dsimp only
      cases mode : (p.detect ch).mode with
      | text =>
        obtain ⟨⟨ret, q, ran, orderly⟩, proper⟩ := recvBytes_safe heap up (sane.text mode) (ch :: net) 0
        exact ⟨⟨ret, q, ran, orderly.sane⟩, proper⟩
      | binary =>
        obtain ⟨⟨ret, q, ran, packeted⟩, proper⟩ := binaryRounds_safe heap up (sane.binary mode) (ch :: net) 0
          (2 * (ch :: net).length) (.inl (by simp only [List.length_cons]; omega))
        exact ⟨⟨ret, q, ran, packeted.sane⟩, proper⟩
      | framed =>
        obtain ⟨⟨ret, q, ran, sane'⟩, proper⟩ := recvFramed_safe up sane (ch :: net)
        exact ⟨⟨ret, q, congrArg Except.ok ran, sane'⟩, proper⟩
      | unknown => exact absurd mode known
    · rw [if_pos padded, if_pos padded]
      exact ⟨⟨-1, _, rfl, sane.app _⟩, nofun⟩

/-- A mode that is known stays. -/
theorem protoRecv_mode (sane : p.Sane) {net : List UInt8} (known : net = [] ∨ p.mode ≠ .unknown) {ret : Int}
    {q : Proto α} (ran : protoRecv heap up p net 0 = .ok (ret, q)) : q.mode = p.mode := by
  cases net with
  | nil =>
    rw [protoRecv] at ran
    split at ran <;> cases ran <;> rfl
  | cons ch net =>
    have known : p.mode ≠ .unknown := known.resolve_left nofun
    have detected : p.detect ch = p := if_neg known
    rw [protoRecv, if_neg (by decide), detected] at ran
    dsimp only at ran
    cases mode : p.mode with
    | text =>
      rw [mode] at ran
      obtain ⟨⟨_, _, ran', orderly⟩, -⟩ := recvBytes_safe heap up (sane.text mode) (ch :: net) 0
      cases ran.symm.trans ran'
      exact orderly.mode
    | binary =>
      rw [mode] at ran
      obtain ⟨⟨_, _, ran', packeted⟩, -⟩ := binaryRounds_safe heap up (sane.binary mode) (ch :: net) 0
        (2 * (ch :: net).length) (.inl (by simp only [List.length_cons]; omega))
      cases ran.symm.trans ran'
      exact packeted.mode
    | framed =>
      rw [mode] at ran
      have result : q = (recvFramed up p (ch :: net)).2 := (congrArg Prod.snd (Except.ok.inj ran)).symm
      rw [result, recvFramed]
      split <;> exact mode
    | unknown => exact absurd mode known

end Recv

end Infod

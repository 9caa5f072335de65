import Infod.Info.Balance
import Infod.Info.Receive
import Mathlib

/-!
# Reading values

What `info_readv` and `info_read` return for the messages that arrive. The values are packed into the
buffer in the order of their messages; a read of several keys ends with PONG, a
read of one key with the first INFO.
-/

namespace Infod.Info

/-! ### Bindings -/

/-- The values that INFOs bring, one behind the other. -/
def values (replies : List (List UInt8)) : List UInt8 := (replies.filterMap infoValue).flatten

/-- The bindings for the replies, with the values from an offset on. -/
def place (offset : Nat) : List Bind → List (List UInt8) → List Bind
  | b :: binds, data :: replies =>
    match infoValue data with
    | none => { b with value := none, valuesz := 0 } :: place offset binds replies
    | some value =>
      { b with value := some offset, valuesz := value.length } :: place (offset + value.length) binds replies
  | binds, _ => binds

/-- The value of a binding. -/
def Bind.read (buffer : Mem) (b : Bind) : Option (List UInt8) := b.value.map fun offset => buffer.slice offset b.valuesz

section Binds

variable {data : List UInt8} {w : Waitret} {binds front back : List Bind} {b : Bind}

theorem bindFirst_miss (other : ∀ b ∈ binds, cstr data ≠ cstr b.key) : bindFirst data w binds = some (binds, w) := by
  induction binds with
  | nil => rfl
  | cons b rest ih =>
    rw [bindFirst, if_neg (other b List.mem_cons_self), ih fun b member => other b (List.mem_cons_of_mem _ member)]
    rfl

theorem bindFirst_hit (other : ∀ b ∈ front, cstr data ≠ cstr b.key) (key : cstr data = cstr b.key) :
    bindFirst data w (front ++ b :: back) = (waitretBind w b data).map fun (b, w) => (front ++ b :: back, w) := by
  induction front with
  | nil => rw [List.nil_append, bindFirst, if_pos key]; rfl
  | cons c rest ih =>
    rw [List.cons_append, bindFirst, if_neg (other c List.mem_cons_self),
      ih fun b member => other b (List.mem_cons_of_mem _ member)]
    cases waitretBind w b data <;> rfl

theorem waitretBind_fits {value : List UInt8} (found : infoValue data = some value)
    (room : intToSize (value.length + w.buflen) ≤ w.buffersz) :
    waitretBind w b data = some ({ b with value := some w.buflen, valuesz := value.length },
      { w with buffer := w.buffer.write w.buflen value, buflen := w.buflen + value.length }) := by
  rw [waitretBind, found]
  exact if_neg (Nat.not_lt.mpr room)

theorem waitretBind_full {value : List UInt8} (found : infoValue data = some value)
    (full : ¬ intToSize (value.length + w.buflen) ≤ w.buffersz) : waitretBind w b data = none := by
  rw [waitretBind, found]
  exact if_pos (Nat.lt_of_not_le full)

/-- For sizes below 2 GiB, the comparison of `int` with `size_t` is one of numbers. -/
theorem intToSize_le {n buflen buffersz : Nat} (small : n < 65536) (filled : buflen ≤ buffersz) (size : buffersz < 2 ^ 31) :
    intToSize (n + buflen) ≤ buffersz ↔ n + buflen ≤ buffersz := by
  rw [intToSize]
  split <;> omega

theorem infoValue_length {value : List UInt8} (found : infoValue data = some value) : value.length < data.length := by
  rw [infoValue] at found
  split at found
  · cases found
  next longer =>
    cases found
    have bound := cstr_length_le data
    rw [List.length_drop]
    omega

/-- What is read back from the bindings are the values. -/
theorem place_read {replies : List (List UInt8)} (count : binds.length = replies.length) {buffer : Mem} {offset : Nat}
    (packed : buffer.slice offset (values replies).length = values replies) :
    (place offset binds replies).map (Bind.read buffer) = replies.map infoValue := by
  induction replies generalizing binds offset with
  | nil =>
    rw [List.length_eq_zero_iff.mp count]
    rfl
  | cons data replies ih =>
    obtain ⟨b, binds, rfl⟩ := List.exists_cons_of_length_eq_add_one count
    rw [List.length_cons, List.length_cons, Nat.add_right_cancel_iff] at count
    rw [place]
    cases found : infoValue data with
    | none =>
      rw [values, List.filterMap_cons_none found, ← values] at packed
      rw [List.map_cons, List.map_cons, ih count packed, found]
      rfl
    | some value =>
      rw [values, List.filterMap_cons_some found, List.flatten_cons, ← values, List.length_append,
        Mem.slice_append] at packed
      obtain ⟨first, rest⟩ := List.append_inj packed (Mem.slice_length ..)
      rw [List.map_cons, List.map_cons, ih count rest, found]
      exact congrArg (· :: _) (congrArg some first)

theorem place_keys (offset : Nat) (binds : List Bind) (replies : List (List UInt8)) :
    (place offset binds replies).map Bind.key = binds.map Bind.key := by
  induction binds generalizing offset replies with
  | nil => rfl
  | cons b binds ih =>
    cases replies with
    | nil => rfl
    | cons data replies =>
      rw [place]
      split
      · rw [List.map_cons, ih, List.map_cons]
      · rw [List.map_cons, ih, List.map_cons]

end Binds

/-! ### Messages for a read -/

/-- `waitret` while `info_readv` waits. -/
def Waitret.reading (untilMsg : UInt8) (done : Nat) (binds : List Bind) (buffer : Mem) (buflen buffersz : Nat) : Waitret :=
  ⟨untilMsg, false, done, binds, none, 0, buffer, buflen, buffersz, false⟩

/-- The library while it waits with this `waitret`. -/
def State.reading (st : State) (waitret : Waitret) : Waiting := ⟨{ st with waitret }, none, 1⟩

section Messages

variable (sys : InfoSys) (st : State) {untilMsg : UInt8} {done buflen buffersz : Nat} {binds : List Bind} {buffer : Mem}

/-- An INFO fills in a binding, if there is one for its key. -/
theorem onInput_info {count : Nat} (counted : (if untilMsg = msgInfo then done + 1 else done) = count) (data : List UInt8) :
    onInput sys (st.reading (.reading untilMsg done binds buffer buflen buffersz)) msgInfo data =
      match bindFirst data (.reading untilMsg count binds buffer buflen buffersz) binds with
      | none => (-1, ⟨{ st with
          waitret := .reading untilMsg count binds buffer buflen buffersz, errno := .enomem }, none, -1⟩)
      | some (binds, w) => (1, st.reading { w with binds }) := by
  have state : (if untilMsg = msgInfo then
      (st.reading (.reading untilMsg done binds buffer buflen buffersz)).st.countDone
      else (st.reading (.reading untilMsg done binds buffer buflen buffersz)).st) =
      { st with waitret := .reading untilMsg count binds buffer buflen buffersz } := by
    subst counted
    split <;> rfl
  rw [onInput, show (st.reading (.reading untilMsg done binds buffer buflen buffersz)).fault = none from rfl, input]
  dsimp only
  rw [show (st.reading (.reading untilMsg done binds buffer buflen buffersz)).st.waitret.untilMsg = untilMsg from rfl,
    state, if_neg (by decide), if_pos rfl,
    show inputExists { st with waitret := .reading untilMsg count binds buffer buflen buffersz } data =
      { st with waitret := .reading untilMsg count binds buffer buflen buffersz } from rfl]
  cases bound : bindFirst data (.reading untilMsg count binds buffer buflen buffersz) binds with
  | none =>
    have full : inputBinds { st with waitret := .reading untilMsg count binds buffer buflen buffersz } data =
        (false, { st with
          waitret := .reading untilMsg count binds buffer buflen buffersz, errno := .enomem }) := by
      rw [inputBinds]
      dsimp only [Waitret.reading] at bound ⊢
      rw [bound]
    rw [full]
    rfl
  | some result =>
    obtain ⟨binds', w⟩ := result
    have filled : inputBinds { st with waitret := .reading untilMsg count binds buffer buflen buffersz } data =
        (true, { st with waitret := { w with binds := binds' } }) := by
      rw [inputBinds]
      dsimp only [Waitret.reading] at bound ⊢
      rw [bound]
    obtain ⟨buffer', buflen', rfl⟩ := bindFirst_same bound
    rw [filled]
    rfl

/-- PONG is the end of the answers. -/
theorem onInput_pong (data : List UInt8) :
    onInput sys (st.reading (.reading msgPong done binds buffer buflen buffersz)) msgPong data =
      (1, st.reading (.reading msgPong (done + 1) binds buffer buflen buffersz)) := rfl

end Messages

/-! ### Several keys -/

/-- How many bytes a message brings for the keys. -/
def brings (keys : List (List UInt8)) (message : UInt8 × List UInt8) : Nat :=
  if message.1 = msgInfo ∧ cstr message.2 ∈ keys then ((infoValue message.2).getD []).length else 0

/-- No message that arrives while the values so far have room is longer than the limit. -/
def Receivable (keys : List (List UInt8)) (limit buffersz : Nat) : Nat → List (UInt8 × List UInt8) → Prop
  | _, [] => True
  | buflen, message :: rest =>
    message.2.length ≤ limit ∧
      (buflen + brings keys message ≤ buffersz → Receivable keys limit buffersz (buflen + brings keys message) rest)

/-- The answers to a read of several keys. -/
def answers (infos : List (List UInt8)) (pong : List UInt8) : List (UInt8 × List UInt8) :=
  infos.map (fun data => (msgInfo, data)) ++ [(msgPong, pong)]

/-- What is known when the answers have been handed over, from where the values had taken `buflen` bytes and these
bindings were still to fill. -/
structure Gathered (keys : List (List UInt8)) (limit buffersz buflen : Nat) (messages : List (UInt8 × List UInt8))
    (replies : List (List UInt8)) (placed back : List Bind) (buffer : Mem) (handed : Handed) (w : Waiting) : Prop where
  outside : w.st.waitret.inCb = false
  below : Mem.Same buffer w.st.waitret.buffer 0 buflen
  above : ∀ i, buffersz ≤ i → w.st.waitret.buffer i = buffer i
  oversized : handed = .oversized → ¬ Receivable keys limit buffersz buflen messages
  refused : ∀ n, handed = .refused n → n = -1 ∧ w.st.errno = .enomem ∧
    Receivable keys limit buffersz buflen messages ∧ buffersz < buflen + (values replies).length
  all : handed = .all → Receivable keys limit buffersz buflen messages ∧ buflen + (values replies).length ≤ buffersz ∧
    w.st.waitret.done = 1 ∧ w.st.waitret.binds = placed ++ place buflen back replies ∧
    w.st.waitret.buffer.slice buflen (values replies).length = values replies

section Several

variable (sys : InfoSys) (st : State) {keys : List (List UInt8)} {limit buffersz : Nat}

theorem values_cons (data : List UInt8) (replies : List (List UInt8)) :
    values (data :: replies) = (infoValue data).getD [] ++ values replies := by
  rw [values, List.filterMap_cons]
  cases infoValue data <;> rfl

theorem brings_info {data : List UInt8} (asked : cstr data ∈ keys) :
    brings keys (msgInfo, data) = ((infoValue data).getD []).length := if_pos ⟨rfl, asked⟩

/-- One more INFO before the others, with its value in front of theirs. -/
theorem Gathered.step {infos replies replies' : List (List UInt8)} {pong data : List UInt8} (value : List UInt8)
    {buflen : Nat} {placed placed' back back' : List Bind} {buffer buffer' : Mem} {handed : Handed} {w : Waiting}
    (gathered : Gathered keys limit buffersz (buflen + value.length) (answers infos pong) replies' placed' back' buffer'
      handed w)
    (fits : data.length ≤ limit) (brought : brings keys (msgInfo, data) = value.length)
    (room : buflen + value.length ≤ buffersz) (below : Mem.Same buffer buffer' 0 buflen)
    (above : ∀ i, buffersz ≤ i → buffer' i = buffer i) (stored : buffer'.slice buflen value.length = value)
    (brings_ : values replies = value ++ values replies')
    (placing : placed' ++ place (buflen + value.length) back' replies' = placed ++ place buflen back replies) :
    Gathered keys limit buffersz buflen (answers (data :: infos) pong) replies placed back buffer handed w := by
  have receivable : Receivable keys limit buffersz buflen (answers (data :: infos) pong) ↔
      Receivable keys limit buffersz (buflen + value.length) (answers infos pong) := by
    rw [show answers (data :: infos) pong = (msgInfo, data) :: answers infos pong from rfl, Receivable, brought]
    exact ⟨fun both => both.2 room, fun rest => ⟨fits, fun _ => rest⟩⟩
  have total : buflen + (values replies).length = buflen + value.length + (values replies').length := by
    rw [brings_, List.length_append]
    omega
  refine ⟨gathered.outside, below.trans (gathered.below.mono (Nat.le_refl 0) (Nat.le_add_right ..)),
    fun i beyond => (gathered.above i beyond).trans (above i beyond), ?_, ?_, ?_⟩
  · rw [receivable]
    exact gathered.oversized
  · rw [receivable, total]
    exact gathered.refused
  · intro accepted
    obtain ⟨rest, within, done, binds, packed⟩ := gathered.all accepted
    refine ⟨receivable.mpr rest, total ▸ within, done, binds.trans placing, ?_⟩
    rw [brings_, List.length_append, Mem.slice_append, packed,
      Mem.slice_congr (gathered.below.mono (Nat.zero_le buflen) (Nat.le_refl _)), stored]

/-- The induction is on the INFOs. Those for the keys fill in the bindings one after the other. -/
theorem answers_gathered (size : buffersz < 2 ^ 31) (infos : List (List UInt8)) (pong : List UInt8)
    (small : ∀ data ∈ infos, data.length < 65536) {placed back : List Bind} {buffer : Mem} {buflen : Nat}
    (asked : (placed ++ back).map (fun b => cstr b.key) = keys) (distinct : keys.Nodup)
    (order : (infos.filter fun data => cstr data ∈ keys).map cstr = back.map fun b => cstr b.key)
    (filled : buflen ≤ buffersz) :
    ∃ handed w, handOver (onInput sys) limit (answers infos pong)
        (st.reading (.reading msgPong 0 (placed ++ back) buffer buflen buffersz)) = (handed, w) ∧
      Gathered keys limit buffersz buflen (answers infos pong) (infos.filter fun data => cstr data ∈ keys) placed back
        buffer handed w := by
  induction infos generalizing placed back buffer buflen with
  | nil =>
    have none_ : back = [] := by
      cases back with
      | nil => rfl
      | cons => cases order
    subst none_
    rw [answers, List.map_nil, List.nil_append, handOver]
    by_cases large : limit < pong.length
    · rw [if_pos large]
      refine ⟨.oversized, _, rfl, rfl, fun _ _ _ => rfl, fun _ _ => rfl, fun _ receivable => ?_, (by rintro _ ⟨⟩), (by rintro ⟨⟩)⟩
      exact absurd receivable.1 (Nat.not_le.mpr large)
    · rw [if_neg large, onInput_pong, if_neg (Int.not_le.mpr Int.one_pos)]
      refine ⟨.all, _, rfl, rfl, fun _ _ _ => rfl, fun _ _ => rfl, (by rintro ⟨⟩), (by rintro _ ⟨⟩), fun _ => ?_⟩
      exact ⟨⟨Nat.not_lt.mp large, fun _ => trivial⟩, filled, rfl, rfl, rfl⟩
  | cons data infos ih =>
    have small₁ : data.length < 65536 := small data List.mem_cons_self
    have small₂ : ∀ data ∈ infos, data.length < 65536 := fun data member => small data (List.mem_cons_of_mem _ member)
    rw [show answers (data :: infos) pong = (msgInfo, data) :: answers infos pong from rfl]
    by_cases large : limit < data.length
    · rw [handOver, if_pos large]
      refine ⟨.oversized, _, rfl, rfl, fun _ _ _ => rfl, fun _ _ => rfl, fun _ receivable => ?_, (by rintro _ ⟨⟩), (by rintro ⟨⟩)⟩
      exact absurd receivable.1 (Nat.not_le.mpr large)
    · have fits := Nat.not_lt.mp large
      have answer := @onInput_info sys st msgPong 0 buflen buffersz (placed ++ back) buffer 0 rfl data
      by_cases wanted : cstr data ∈ keys
      · rw [List.filter_cons_of_pos (by simpa using wanted)] at order ⊢
        obtain ⟨b, back, rfl⟩ : ∃ b rest, back = b :: rest := by
          cases back with
          | nil => cases order
          | cons b rest => exact ⟨b, rest, rfl⟩
        rw [List.map_cons, List.map_cons, List.cons.injEq] at order
        obtain ⟨key, order⟩ := order
        have other : ∀ c ∈ placed, cstr data ≠ cstr c.key := by
          intro c member same
          rw [← asked, List.map_append, List.nodup_append] at distinct
          exact distinct.2.2 _ (List.mem_map_of_mem member) _ List.mem_cons_self (same.symm.trans key)
        rw [bindFirst_hit other key] at answer
        -- the key of the binding stays
        have asked' (b' : Bind) (same : b'.key = b.key) : (placed ++ [b'] ++ back).map (fun b => cstr b.key) = keys := by
          rw [← asked, List.append_assoc, List.singleton_append, List.map_append, List.map_append, List.map_cons,
            List.map_cons, same]
        cases found : infoValue data with
        | none =>
          have brought : brings keys (msgInfo, data) = ([] : List UInt8).length := by
            rw [brings_info wanted, found]
            rfl
          rw [waitretBind, found, Option.map_some] at answer
          obtain ⟨handed, w, ran, gathered⟩ := ih small₂ (asked' { b with value := none, valuesz := 0 } rfl) order filled
          rw [List.append_assoc, List.singleton_append] at ran
          refine ⟨handed, w, (handOver_next fits answer Int.one_pos _).trans ran, ?_⟩
          refine Gathered.step [] gathered fits brought filled (fun _ _ _ => rfl) (fun _ _ => rfl) rfl ?_ ?_
          · rw [values_cons, found]
            rfl
          · rw [place, found, List.append_assoc]
            rfl
        | some value =>
          have shorter := infoValue_length found
          have brought : brings keys (msgInfo, data) = value.length := by
            rw [brings_info wanted, found]
            rfl
          have fitting := @intToSize_le value.length buflen buffersz (by omega) filled size
          by_cases room : value.length + buflen ≤ buffersz
          · rw [waitretBind_fits found (by exact fitting.mpr room), Option.map_some] at answer
            obtain ⟨handed, w, ran, gathered⟩ := @ih small₂ (placed ++ [{ b with value := some buflen, valuesz := value.length }])
              back (buffer.write buflen value) (buflen + value.length)
              (asked' { b with value := some buflen, valuesz := value.length } rfl) order (by omega)
            rw [List.append_assoc, List.singleton_append] at ran
            refine ⟨handed, w, (handOver_next fits answer Int.one_pos _).trans ran, ?_⟩
            refine Gathered.step value gathered fits brought (by omega) (Mem.write_below _ _ _ (Nat.le_refl _)) ?_
              (Mem.slice_write ..) ?_ ?_
            · exact fun i beyond => Mem.write_outside _ _ _ _ (by omega)
            · rw [values_cons, found]
              rfl
            · rw [place, found, List.append_assoc]
              rfl
          · rw [waitretBind_full found (by exact fun fits => room (fitting.mp fits)), Option.map_none] at answer
            refine ⟨.refused (-1), _, handOver_refused fits answer (by decide) _, rfl, fun _ _ _ => rfl, fun _ _ => rfl,
              (by rintro ⟨⟩), ?_, (by rintro ⟨⟩)⟩
            intro n same
            cases same
            refine ⟨rfl, rfl, ⟨fits, fun more => ?_⟩, ?_⟩
            · rw [brought] at more
              omega
            · rw [values_cons, found, List.length_append]
              dsimp only [Option.getD]
              omega
      · have other : ∀ b ∈ placed ++ back, cstr data ≠ cstr b.key := fun b member same =>
          wanted (asked ▸ same ▸ List.mem_map_of_mem member)
        rw [bindFirst_miss other] at answer
        rw [List.filter_cons_of_neg (by simpa using wanted)] at order ⊢
        obtain ⟨handed, w, ran, gathered⟩ := ih small₂ asked order filled
        refine ⟨handed, w, (handOver_next fits answer Int.one_pos _).trans ran, ?_⟩
        have brought : brings keys (msgInfo, data) = ([] : List UInt8).length := if_neg fun both => wanted both.2
        exact Gathered.step [] gathered fits brought filled (fun _ _ _ => rfl) (fun _ _ => rfl) rfl rfl rfl

/-- INFOs are not what a read of several keys waits for. -/
theorem handOver_waiting {messages : List (UInt8 × List UInt8)} (infos : ∀ message ∈ messages, message.1 = msgInfo)
    {done buflen : Nat} {binds : List Bind} {buffer : Mem} {w : Waiting}
    (ran : handOver (onInput sys) limit messages (st.reading (.reading msgPong done binds buffer buflen buffersz)) =
      (.all, w)) : w.st.waitret.done = done := by
  induction messages generalizing binds buffer buflen with
  | nil =>
    cases ran
    rfl
  | cons message rest ih =>
    obtain ⟨id, data⟩ := message
    obtain rfl : id = msgInfo := infos (id, data) List.mem_cons_self
    have answer := @onInput_info sys st msgPong done buflen buffersz binds buffer done rfl data
    rw [handOver] at ran
    split at ran
    · cases ran
    · cases bound : bindFirst data (.reading msgPong done binds buffer buflen buffersz) binds with
      | none =>
        rw [bound] at answer
        rw [answer] at ran
        cases ran
      | some result =>
        obtain ⟨binds', w'⟩ := result
        obtain ⟨buffer', buflen', rfl⟩ := bindFirst_same bound
        rw [bound] at answer
        rw [answer, if_neg (Int.not_le.mpr Int.one_pos)] at ran
        exact ih (fun message member => infos message (List.mem_cons_of_mem _ member)) ran

theorem answers_doneLast (size : buffersz < 2 ^ 31) {infos : List (List UInt8)} {pong : List UInt8}
    (small : ∀ data ∈ infos, data.length < 65536) {binds : List Bind} {buffer : Mem}
    (asked : binds.map (fun b => cstr b.key) = keys) (distinct : keys.Nodup)
    (order : (infos.filter fun data => cstr data ∈ keys).map cstr = keys) :
    DoneLast sys limit (answers infos pong) (st.reading (.reading msgPong 0 binds buffer 0 buffersz)) where
  before front back w split rest ran := by
    refine handOver_waiting sys st (fun message member => ?_) ran
    have before := congrArg List.dropLast split
    rw [answers, List.dropLast_concat, List.dropLast_append_of_ne_nil rest] at before
    have inside : message ∈ infos.map fun data => (msgInfo, data) := before ▸ List.mem_append_left _ member
    obtain ⟨data, -, rfl⟩ := List.mem_map.mp inside
    rfl
  after w ran := by
    obtain ⟨handed, w', ran', gathered⟩ := @answers_gathered sys st keys limit buffersz size infos pong small [] binds
      buffer 0 asked distinct (order.trans asked.symm) (Nat.zero_le _)
    rw [List.nil_append, ran] at ran'
    cases ran'
    obtain ⟨-, -, done, -⟩ := gathered.all rfl
    rw [done]
    decide

end Several

/-! ### The call -/

/-- `info_readv` is called outside of a callback, on a connection that is open or can be opened, and its requests
can be sent; so the library comes to wait for the answers in the state `st`. -/
structure Asked (sys : InfoSys) (binds : List Bind) (mode : Mode) (lib : Library) (st : State) : Prop where
  outside : lib.st.waitret.inCb = false
  opened : (infoOpen sys false (waitretInit lib.st).2).1 = 0
  sent : outputAll sys (readRequests binds).1 (infoOpen sys false (waitretInit lib.st).2).2 = some (0, st)
  proto : st.link.proto = some mode
  memory : ∀ n, (sys.heap st.link.serial).realloc n = true
  held : mode = .binary → Partial (lib.rx st.link.serial).data

section Call

variable {sys : InfoSys} {binds : List Bind} {mode : Mode} {lib : Library} {st : State}

theorem outputAll_waitret {messages : List (UInt8 × List UInt8)} {s s' : State} {ret : Int}
    (ran : outputAll sys messages s = some (ret, s')) : s'.waitret = s.waitret := by
  induction messages generalizing s with
  | nil =>
    cases ran
    rfl
  | cons message rest ih =>
    obtain ⟨⟨code, s₁⟩, first, next⟩ := Option.bind_eq_some_iff.mp ran
    have same : s₁.waitret = s.waitret := by
      obtain ⟨mode, -, result⟩ := Option.map_eq_some_iff.mp first
      split at result
      · cases result
        rfl
      · dsimp only at result
        split at result
        · cases result
          rfl
        · cases result
          rfl
    dsimp only at next
    split at next
    · cases next
      exact same
    · exact (ih next).trans same

theorem infoOpen_waitret {s : State} (zero : s.waitret = .zero) (hostport : Bool) :
    (infoOpen sys hostport s).2.waitret = .zero := by
  rw [infoOpen]
  split
  · exact zero
  · rw [waitretInit, zero, if_neg (by decide)]
    dsimp only
    rw [if_neg (by decide), infoClose_outside rfl]
    dsimp only
    generalize same : connectLoop sys sys.retries _ = s₂
    obtain ⟨fd, -, -, waitret⟩ := @connectLoop_same sys { s with
      link := { s.link with fd := -1, proto := none, txBegun := 0, sent := [] }
      waitret := .zero
      lastError := [] } sys.retries
    rw [same] at waitret
    dsimp only at waitret
    split
    · exact waitret
    · split
      · rw [@infoClose_outside { s₂ with mallocs := s₂.mallocs + 1 } (congrArg Waitret.inCb waitret)]
        exact waitret
      · exact waitret

theorem Asked.waitret (asked : Asked sys binds mode lib st) : st.waitret = .zero := by
  rw [outputAll_waitret asked.sent]
  refine infoOpen_waitret ?_ false
  rw [waitretInit, asked.outside, if_neg Bool.false_ne_true]

/-- The bindings, with the results cleared. -/
def cleared (binds : List Bind) : List Bind := binds.map fun b => { b with value := none, valuesz := 0 }

theorem cleared_keys (binds : List Bind) :
    (cleared binds).map (fun b => cstr b.key) = binds.map fun b => cstr b.key := by
  rw [cleared, List.map_map]
  rfl

theorem readRequests_cleared (binds : List Bind) : readRequests (cleared binds) = readRequests binds := by
  match binds with
  | [] => rfl
  | [_] => rfl
  | _ :: _ :: binds =>
    rw [cleared, readRequests.eq_def, readRequests.eq_def]
    dsimp only [List.map_cons]
    rw [List.map_map]
    rfl

theorem place_cleared {replies : List (List UInt8)} (count : binds.length = replies.length) (offset : Nat) :
    place offset (cleared binds) replies = place offset binds replies := by
  induction replies generalizing binds offset with
  | nil =>
    rw [List.length_eq_zero_iff.mp count]
    rfl
  | cons data replies ih =>
    obtain ⟨b, binds, rfl⟩ := List.exists_cons_of_length_eq_add_one count
    rw [List.length_cons, List.length_cons, Nat.add_right_cancel_iff] at count
    rw [cleared, List.map_cons, ← cleared, place, place]
    split
    · rw [ih count]
    · rw [ih count]

/-- What is left to do of the call. -/
theorem infoReadv_asked (asked : Asked sys binds mode lib st) (some_ : binds ≠ []) (buffer : Mem) (buffersz : Nat) :
    infoReadv sys binds buffer buffersz lib.st =
      .waits (readRequests binds).2
        { st with waitret := { st.waitret with binds := cleared binds, buffer, buffersz } } fun ret st =>
          ((if (finish ret st).1 = -1 then -1 else 0, st.waitret.binds, st.waitret.buffer), (finish ret st).2) := by
  have ready : (waitretInit lib.st).1 = 0 := by
    rw [waitretInit, asked.outside, if_neg Bool.false_ne_true]
  rw [infoReadv, if_neg some_]
  dsimp only
  rw [ready, if_neg (by decide), asked.opened, if_neg (by decide), ← cleared, readRequests_cleared, asked.sent,
    Routine.after.eq_def]
  rfl

theorem readRequests_waits (binds : List Bind) : (readRequests binds).2 ≠ once := by
  match binds with
  | [] => decide
  | [_] => exact (by decide : msgInfo ≠ once)
  | _ :: _ :: _ => exact (by decide : msgPong ≠ once)

theorem waitEnd_waitret (ended : Handed × Waiting) : (waitEnd ended).2.waitret = ended.2.st.waitret := by
  obtain ⟨handed, w⟩ := ended
  cases handed with
  | all | oversized => rfl
  | refused n =>
    rw [waitEnd]
    split
    · rfl
    · rfl

theorem finish_errno (outside : st.waitret.inCb = false) (ret : Int) : (finish ret st).2.errno = st.errno := by
  rw [finish]
  split
  · rw [infoClose_outside outside]
  · rfl

/-- What `info_readv` returns, by what has become of the messages. -/
theorem infoReadv_hands (asked : Asked sys binds mode lib st) (some_ : binds ≠ []) {buffer : Mem} {buffersz : Nat}
    {messages : List (UInt8 × List UInt8)} {reads more : List Read} (incoming : lib.incoming = reads ++ more)
    (any : messages ≠ []) (small : ∀ message ∈ messages, message.2.length < 65536)
    (arrives : Arrives mode (lib.rx st.link.serial).data messages reads)
    (last : DoneLast sys (payloadLimit mode) messages
      (st.reading (.reading (readRequests binds).2 0 (cleared binds) buffer 0 buffersz)))
    {handed : Handed} {w : Waiting}
    (ran : handOver (onInput sys) (payloadLimit mode) messages
      (st.reading (.reading (readRequests binds).2 0 (cleared binds) buffer 0 buffersz)) = (handed, w))
    (outside : w.st.waitret.inCb = false) :
    ∃ lib', (infoReadv sys binds buffer buffersz lib.st).run sys lib =
        (.ok (if (waitEnd (handed, w)).1 = -1 then -1 else 0, w.st.waitret.binds, w.st.waitret.buffer), lib') ∧
      lib'.st.errno = (waitEnd (handed, w)).2.errno := by
  let waiting : Library := { lib with
    st := { st with waitret := .reading (readRequests binds).2 0 (cleared binds) buffer 0 buffersz }
    incoming := reads ++ more }
  have ready : Ready sys mode st.link waiting := ⟨rfl, asked.proto, rfl, asked.memory, asked.held⟩
  obtain ⟨ret, lib', waited, ended⟩ := @waitRounds_hands sys mode st.link waiting ready messages reads more _
    (readRequests_waits binds) any small arrives last
  have waits : waitUntil sys (readRequests binds).2
      { lib with st := { st with waitret := { st.waitret with binds := cleared binds, buffer, buffersz } } } =
      (.ok ret, lib') := by
    rw [waitUntil, asked.waitret]
    dsimp only
    rw [incoming]
    exact waited
  have ended : (ret, lib'.st) = waitEnd (handed, w) := ended.trans (congrArg waitEnd ran)
  have waitret := waitEnd_waitret (handed, w)
  rw [infoReadv_asked asked some_, Routine.run, waits]
  rw [← ended] at waitret ⊢
  dsimp only at waitret ⊢
  refine ⟨{ lib' with st := (finish ret lib'.st).2 }, ?_, finish_errno (by rw [waitret]; exact outside) ret⟩
  rw [waitret, finish]
  split
  · rfl
  · rfl

/-! ### What is read -/

theorem infoValue_eq_none {data : List UInt8} : infoValue data = none ↔ (0 : UInt8) ∉ data := by
  rw [infoValue]
  constructor
  · intro missing nul
    have parts := congrArg List.length (cstr_split nul)
    rw [List.length_append, List.length_cons] at parts
    split at missing
    · omega
    · cases missing
  · intro free
    rw [cstr_of_nul_free free, if_pos rfl]

/-- A read of several keys returns all the values, or says that the buffer is too small for them. -/
structure Coherent (binds : List Bind) (replies : List (List UInt8)) (buffer : Mem) (buffersz : Nat)
    (ret : Int) (binds' : List Bind) (buffer' : Mem) (errno : Errno) : Prop where
  returns : ret = 0 ↔ (values replies).length ≤ buffersz
  nulls : ret = 0 → List.Forall₂ (fun b data => b.value = none ↔ (0 : UInt8) ∉ data) binds' replies
  contents : ret = 0 → binds'.map (Bind.read buffer') = replies.map infoValue
  packed : ret = 0 → binds' = place 0 binds replies
  fails : ret ≠ 0 → ret = -1 ∧ errno = .enomem
  bounded : ∀ i, buffersz ≤ i → buffer' i = buffer i

/-- A binding is NULL where nothing is read back. -/
theorem nulls_of_contents {binds : List Bind} {replies : List (List UInt8)} {buffer : Mem}
    (contents : binds.map (Bind.read buffer) = replies.map infoValue) :
    List.Forall₂ (fun b data => b.value = none ↔ (0 : UInt8) ∉ data) binds replies := by
  have same : List.Forall₂ (· = ·) (binds.map (Bind.read buffer)) (replies.map infoValue) := by
    rw [List.forall₂_eq_eq_eq]
    exact contents
  rw [List.forall₂_map_left_iff, List.forall₂_map_right_iff] at same
  refine same.imp fun b data same => ?_
  rw [← infoValue_eq_none, ← same, Bind.read, Option.map_eq_none_iff]

theorem Receivable.of_le {keys : List (List UInt8)} {limit buffersz buflen : Nat} {messages : List (UInt8 × List UInt8)}
    (short : ∀ message ∈ messages, message.2.length ≤ limit) : Receivable keys limit buffersz buflen messages := by
  induction messages generalizing buflen with
  | nil => trivial
  | cons message rest ih =>
    exact ⟨short message List.mem_cons_self, fun _ => ih fun message member => short message (List.mem_cons_of_mem _ member)⟩

/-- In framed mode every message can be received. -/
theorem receivable_iff {keys : List (List UInt8)} {buffersz buflen : Nat} {messages : List (UInt8 × List UInt8)}
    (small : ∀ message ∈ messages, message.2.length < 65536) :
    Receivable keys (payloadLimit mode) buffersz buflen messages ↔
      (mode = .binary → Receivable keys 65531 buffersz buflen messages) := by
  rw [payloadLimit]
  split
  next binary => exact ⟨fun receivable _ => receivable, fun receivable => receivable binary⟩
  next other =>
    exact ⟨fun _ binary => absurd binary other, fun _ =>
      .of_le fun message member => Nat.lt_succ_iff.mp (small message member)⟩

theorem answers_small {infos : List (List UInt8)} {pong : List UInt8} (small : ∀ data ∈ infos, data.length < 65536)
    (smallPong : pong.length < 65536) : ∀ message ∈ answers infos pong, message.2.length < 65536 := by
  intro message member
  rcases List.mem_append.mp member with info | last
  · obtain ⟨data, inside, rfl⟩ := List.mem_map.mp info
    exact small data inside
  · rw [List.mem_singleton.mp last]
    exact smallPong

theorem readRequests_several (several : 2 ≤ binds.length) : (readRequests binds).2 = msgPong := by
  match binds with
  | [] | [_] => exact absurd several (by simp)
  | _ :: _ :: _ => rfl

/-- The answers to a read of several keys are gathered in the bindings. -/
theorem infoReadv_gathers (asked : Asked sys binds mode lib st) (several : 2 ≤ binds.length)
    (distinct : (binds.map fun b => cstr b.key).Nodup) (buffer : Mem) {buffersz : Nat} (size : buffersz < 2 ^ 31)
    {infos : List (List UInt8)} {pong : List UInt8} (small : ∀ data ∈ infos, data.length < 65536)
    (smallPong : pong.length < 65536)
    (order : (infos.filter fun data => cstr data ∈ binds.map fun b => cstr b.key).map cstr = binds.map fun b => cstr b.key)
    {reads more : List Read} (incoming : lib.incoming = reads ++ more)
    (arrives : Arrives mode (lib.rx st.link.serial).data (answers infos pong) reads) :
    ∃ handed w lib', (infoReadv sys binds buffer buffersz lib.st).run sys lib =
        (.ok (if (waitEnd (handed, w)).1 = -1 then -1 else 0, w.st.waitret.binds, w.st.waitret.buffer), lib') ∧
      lib'.st.errno = (waitEnd (handed, w)).2.errno ∧
      Gathered (binds.map fun b => cstr b.key) (payloadLimit mode) buffersz 0 (answers infos pong)
        (infos.filter fun data => cstr data ∈ binds.map fun b => cstr b.key) [] (cleared binds) buffer handed w := by
  have some_ : binds ≠ [] := by
    rintro rfl
    exact absurd several (by decide)
  have pong_ := readRequests_several several
  obtain ⟨handed, w, ran, gathered⟩ := @answers_gathered sys st _ (payloadLimit mode) buffersz size infos pong small []
    (cleared binds) buffer 0 (cleared_keys binds) distinct (order.trans (cleared_keys binds).symm) (Nat.zero_le _)
  have last := @answers_doneLast sys st _ (payloadLimit mode) buffersz size infos pong small (cleared binds) buffer
    (cleared_keys binds) distinct order
  rw [← pong_] at last ran
  obtain ⟨lib', returned, errno⟩ := infoReadv_hands asked some_ incoming (by simp [answers])
    (answers_small small smallPong) arrives last ran gathered.outside
  exact ⟨handed, w, lib', returned, errno, gathered⟩

/-- A read of several keys is coherent unless a message comes before the buffer is full that the receive buffer of a
binary connection cannot hold. -/
theorem coherent_read_iff (asked : Asked sys binds mode lib st) (several : 2 ≤ binds.length)
    (distinct : (binds.map fun b => cstr b.key).Nodup) (buffer : Mem) {buffersz : Nat} (size : buffersz < 2 ^ 31)
    {infos : List (List UInt8)} {pong : List UInt8} (small : ∀ data ∈ infos, data.length < 65536)
    (smallPong : pong.length < 65536)
    (order : (infos.filter fun data => cstr data ∈ binds.map fun b => cstr b.key).map cstr = binds.map fun b => cstr b.key)
    {reads more : List Read} (incoming : lib.incoming = reads ++ more)
    (arrives : Arrives mode (lib.rx st.link.serial).data (answers infos pong) reads) :
    ∃ ret binds' buffer' lib', (infoReadv sys binds buffer buffersz lib.st).run sys lib = (.ok (ret, binds', buffer'), lib') ∧
      (Coherent binds (infos.filter fun data => cstr data ∈ binds.map fun b => cstr b.key) buffer buffersz ret binds' buffer'
          lib'.st.errno ↔
        (mode = .binary → Receivable (binds.map fun b => cstr b.key) 65531 buffersz 0 (answers infos pong))) := by
  obtain ⟨handed, w, lib', returned, errno, gathered⟩ := infoReadv_gathers asked several distinct buffer size small smallPong
    order incoming arrives
  refine ⟨_, _, _, lib', returned, ?_⟩
  rw [← receivable_iff (answers_small small smallPong), errno]
  have count : (cleared binds).length = (infos.filter fun data => cstr data ∈ binds.map fun b => cstr b.key).length := by
    have lengths := congrArg List.length order
    rw [List.length_map, List.length_map] at lengths
    rw [lengths, cleared, List.length_map]
  generalize (infos.filter fun data => cstr data ∈ binds.map fun b => cstr b.key) = replies at count gathered ⊢
  cases handed with
  | all =>
    obtain ⟨receivable, within, done, placed, packed⟩ := gathered.all rfl
    rw [Nat.zero_add] at within
    rw [show (waitEnd (.all, w)).1 = 1 from congrArg Int.ofNat done, if_neg (by decide), placed, List.nil_append]
    have contents := place_read count packed
    refine iff_of_true ⟨iff_of_true rfl within, fun _ => nulls_of_contents contents, fun _ => contents, fun _ => ?_,
      fun other => absurd rfl other, gathered.above⟩ receivable
    exact place_cleared (by rw [← count, cleared, List.length_map]) 0
  | refused n =>
    obtain ⟨rfl, enomem, receivable, beyond⟩ := gathered.refused n rfl
    rw [Nat.zero_add] at beyond
    rw [show waitEnd (.refused (-1), w) = (-1, w.st) from rfl, if_pos rfl]
    exact iff_of_true ⟨iff_of_false (by decide) (Nat.not_le.mpr beyond), nofun, nofun, nofun, fun _ => ⟨rfl, enomem⟩,
      gathered.above⟩ receivable
  | oversized =>
    -- the error is that of the receive buffer, whether or not the values have room
    refine iff_of_false (fun coherent => ?_) (gathered.oversized rfl)
    obtain ⟨-, enomem⟩ := coherent.fails (by rw [waitEnd, if_pos rfl]; decide)
    cases enomem

end Call

/-- Every system call succeeds. -/
def serving : InfoSys where
  writev _ := none
  connect _ := .ok 3
  malloc _ := true
  callback _ _ _ := ⟨[], 0⟩
  heap _ := ⟨fun _ => true, fun _ _ => 0⟩
  garbage _ := ⟨.bol, [], 0, [], 0, false⟩
  retries := 100

/-- A connection to the local server, or to another host, and what there is to read. -/
def opened (hostport : Bool) (incoming : List Read) : Library :=
  { Library.start serving incoming with st := (infoOpen serving hostport .start).2 }

/-- The requests for some keys have been sent. -/
def requested (hostport : Bool) (binds : List Bind) : State :=
  ((outputAll serving (readRequests binds).1 (infoOpen serving hostport .start).2).getD (0, .start)).2

/-- The keys `a` and `b`. -/
def twoKeys : List Bind := [⟨[97], none, 0⟩, ⟨[98], none, 0⟩]

/-- A pending update, the value of `a`, that `b` is deleted, and the end. -/
def localReads : List Read :=
  [.received ⟨[0x81, 120, 0, 57], by decide⟩, .received ⟨[0x81, 97, 0, 49, 50], by decide⟩,
    .received ⟨[0x81, 98], by decide⟩, .received ⟨[0x82], by decide⟩]

theorem coherent_read_local :
    ∃ ret binds' buffer' lib', (infoReadv serving twoKeys (fun _ => 0) 4 (opened false localReads).st).run serving
        (opened false localReads) = (.ok (ret, binds', buffer'), lib') ∧
      (Coherent twoKeys ([[120, 0, 57], [97, 0, 49, 50], [98]].filter fun data => cstr data ∈ twoKeys.map fun b => cstr b.key)
          (fun _ => 0) 4 ret binds' buffer' lib'.st.errno ↔
        (Mode.framed = .binary → Receivable (twoKeys.map fun b => cstr b.key) 65531 4 0
          (answers [[120, 0, 57], [97, 0, 49, 50], [98]] []))) :=
  @coherent_read_iff serving twoKeys .framed (opened false localReads) (requested false twoKeys)
    ⟨rfl, rfl, rfl, rfl, fun _ => rfl, nofun⟩ (by decide) (by decide)
    (fun _ => 0) 4 (by decide) [[120, 0, 57], [97, 0, 49, 50], [98]] [] (by decide) (by decide) (by decide) localReads []
    (List.append_nil _).symm (.cons ⟨_, rfl⟩ (.cons ⟨_, rfl⟩ (.cons ⟨_, rfl⟩ (.cons ⟨_, rfl⟩ .nil))))

/-- The value of `a`, that `b` is deleted, and the end, each in a read of its own. -/
def remoteReads (value : List UInt8) (fits : value.length = 65530) : List Read :=
  [.received ⟨frameBytes msgInfo (97 :: 0 :: value), by
      rw [frameBytes_length, List.length_cons, List.length_cons, fits]; decide⟩,
    .received ⟨frameBytes msgInfo [98], by decide⟩, .received ⟨frameBytes msgPong [], by decide⟩]

/-- A value of 65530 bytes makes the read fail, with an error that is not about the buffer. -/
theorem infoReadv_oversized (value : List UInt8) (length : value.length = 65530) :
    ∃ binds' buffer' lib', (infoReadv serving twoKeys (fun _ => 0) 0x100000 (opened true (remoteReads value length)).st).run
        serving (opened true (remoteReads value length)) = (.ok (-1, binds', buffer'), lib') ∧
      lib'.st.errno = .enospc := by
  have arrives : Arrives .binary [] (answers [97 :: 0 :: value, [98]] []) (remoteReads value length) :=
    ⟨[⟨_, _⟩, ⟨_, _⟩, ⟨_, _⟩], rfl, by simp [frameBytes], by simp [answers, streamBytes]⟩
  obtain ⟨handed, w, lib', returned, errno, gathered⟩ := @infoReadv_gathers serving twoKeys
    .binary (opened true (remoteReads value length)) (requested true twoKeys)
    ⟨rfl, rfl, rfl, rfl, fun _ => rfl, fun _ => .inl (by exact (by decide : 0 < 3))⟩ (by decide) (by decide) (fun _ => 0) 0x100000 (by decide)
    [97 :: 0 :: value, [98]] [] (by simp [length]) (by decide) rfl (remoteReads value length) [] (List.append_nil _).symm
    arrives
  have oversized : ¬ Receivable (twoKeys.map fun b => cstr b.key) 65531 0x100000 0 (answers [97 :: 0 :: value, [98]] []) := by
    intro receivable
    have short : (97 :: 0 :: value).length ≤ 65531 := receivable.1
    rw [List.length_cons, List.length_cons, length] at short
    omega
  cases handed with
  | all => exact absurd (gathered.all rfl).1 oversized
  | refused n => exact absurd (gathered.refused n rfl).2.2.1 oversized
  | oversized => exact ⟨_, _, lib', returned, errno⟩

theorem coherent_read_oversized :
    ∃ binds' buffer' lib', (infoReadv serving twoKeys (fun _ => 0) 0x100000
        (opened true (remoteReads (.replicate 65530 49) List.length_replicate)).st).run serving
        (opened true (remoteReads (.replicate 65530 49) List.length_replicate)) = (.ok (-1, binds', buffer'), lib') ∧
      lib'.st.errno = .enospc := infoReadv_oversized _ _

/-! ### One key -/

section Single

/-- A message in a read of its own. -/
def OwnRead (mode : Mode) (message : UInt8 × List UInt8) (read : Read) : Prop :=
  match mode with
  | .framed => ∃ fits, read = .received ⟨message.1 :: message.2, fits⟩
  | .binary => ∃ fits, read = .received ⟨frameBytes message.1 message.2, fits⟩
  | _ => False

/-- What a read of one key is to return for the reply. -/
def Answered (reply : List UInt8) (ret : Int) (buf : Mem) (errno : Errno) : Prop :=
  match infoValue reply with
  | some value => ret = value.length ∧ buf.slice 0 value.length = value
  | none => ret = -1 ∧ errno = .enoent

variable {sys : InfoSys} {mode : Mode} {lib : Library} {st : State} {key : List UInt8}

theorem OwnRead.small {message : UInt8 × List UInt8} {read : Read} (own : OwnRead mode message read) :
    message.2.length < 65536 := by
  cases mode with
  | framed =>
    obtain ⟨fits, -⟩ := own
    rw [List.length_cons, protoRecvsz] at fits
    omega
  | binary =>
    obtain ⟨fits, -⟩ := own
    rw [frameBytes_length, protoRecvsz] at fits
    omega
  | unknown | text => exact absurd own id

theorem OwnRead.arrives {message : UInt8 × List UInt8} {read : Read} (own : OwnRead mode message read)
    {held : List UInt8} (empty : mode = .binary → held = []) : Arrives mode held [message] [read] := by
  cases mode with
  | framed => exact .cons own .nil
  | binary =>
    obtain ⟨fits, rfl⟩ := own
    refine ⟨[⟨frameBytes message.1 message.2, fits⟩], rfl, ?_, ?_⟩
    · simp [frameBytes]
    · simp [empty rfl, streamBytes]
  | unknown | text => exact absurd own id

theorem Routine.run_map {ρ τ : Type} {routine : Routine ρ} {result : ρ} {lib lib' : Library}
    (ran : routine.run sys lib = (.ok result, lib')) (f : ρ → State → τ × State) :
    (routine.map f).run sys lib = (.ok (f result lib'.st).1, { lib' with st := (f result lib'.st).2 }) := by
  cases routine with
  | returns =>
    cases ran
    rfl
  | waits msg st resume =>
    rw [Routine.run] at ran
    rw [Routine.map, Routine.run]
    split at ran
    · cases ran
    · cases ran
      rfl
  | null => cases ran

/-- The first INFO ends the wait for one key, and what it brings is filled in if it is for the key. -/
theorem onInput_first (sys : InfoSys) (st : State) {buf : Mem} {bufsz : Nat} {first : List UInt8} (small : first.length < 65536)
    (room : cstr first = cstr key → ∀ value, infoValue first = some value → value.length ≤ bufsz) :
    onInput sys (st.reading (.reading msgInfo 0 [⟨key, none, 0⟩] buf 0 bufsz)) msgInfo first =
      ((1 : Int), st.reading (match if cstr first = cstr key then infoValue first else none with
        | none => .reading msgInfo 1 [⟨key, none, 0⟩] buf 0 bufsz
        | some value => .reading msgInfo 1 [⟨key, some 0, value.length⟩] (buf.write 0 value) value.length bufsz)) := by
  rw [@onInput_info sys st msgInfo 0 0 bufsz [⟨key, none, 0⟩] buf 1 rfl first]
  by_cases mine : cstr first = cstr key
  · rw [bindFirst, if_pos mine, if_pos mine]
    cases found : infoValue first with
    | none =>
      rw [waitretBind, found]
      rfl
    | some value =>
      have shorter := infoValue_length found
      have fits : intToSize (value.length + 0) ≤ bufsz := by
        have within := room mine value found
        rw [intToSize]
        split <;> omega
      rw [waitretBind_fits found fits, Option.map_some]
      dsimp only [Waitret.reading]
      rw [Nat.zero_add]
  · rw [bindFirst_miss (by simpa using mine), if_neg mine]
    rfl

/-- `info_read` returns what the first INFO brings. -/
theorem infoRead_first (asked : Asked sys [⟨key, none, 0⟩] mode lib st)
    (empty : mode = .binary → (lib.rx st.link.serial).data = []) (buf : Mem) {bufsz : Nat} {first : List UInt8}
    (room : cstr first = cstr key → ∀ value, infoValue first = some value → value.length ≤ bufsz)
    {read : Read} {more : List Read} (incoming : lib.incoming = read :: more) (own : OwnRead mode (msgInfo, first) read) :
    ∃ ret buf' lib', (infoRead sys key buf bufsz lib.st).run sys lib = (.ok (ret, buf'), lib') ∧
      (payloadLimit mode < first.length → ret = -1 ∧ lib'.st.errno = .enospc) ∧
      (first.length ≤ payloadLimit mode → match if cstr first = cstr key then infoValue first else none with
        | none => ret = -1 ∧ lib'.st.errno = .enoent
        | some value => ret = value.length ∧ buf'.slice 0 value.length = value) := by
  have answer := @onInput_first key sys st buf bufsz first own.small room
  generalize (if cstr first = cstr key then infoValue first else none) = taken at answer ⊢
  have done : DoneLast sys (payloadLimit mode) [(msgInfo, first)]
      (st.reading (.reading msgInfo 0 [⟨key, none, 0⟩] buf 0 bufsz)) := by
    constructor
    · intro front back w parts rest ran
      cases front with
      | nil =>
        cases ran
        rfl
      | cons message front =>
        obtain ⟨-, none_⟩ := List.cons.inj parts
        exact absurd (List.append_eq_nil_iff.mp none_.symm).2 rest
    · intro w ran
      rw [handOver] at ran
      split at ran
      · cases ran
      · rw [answer, if_neg (Int.not_le.mpr Int.one_pos)] at ran
        cases ran
        cases taken with
        | none | some => exact Nat.one_ne_zero
  have arrives := own.arrives empty
  have small : ∀ message ∈ [(msgInfo, first)], message.2.length < 65536 := by
    intro message member
    rw [List.mem_singleton.mp member]
    exact own.small
  rw [infoRead]
  by_cases large : payloadLimit mode < first.length
  · have ran : handOver (onInput sys) (payloadLimit mode) [(msgInfo, first)]
        (st.reading (.reading msgInfo 0 [⟨key, none, 0⟩] buf 0 bufsz)) =
        (.oversized, st.reading (.reading msgInfo 0 [⟨key, none, 0⟩] buf 0 bufsz)) := by
      rw [handOver, if_pos large]
    obtain ⟨lib', returned, errno⟩ := @infoReadv_hands sys [⟨key, none, 0⟩] mode lib st asked (by simp) buf bufsz _ [read] more
      incoming (by simp) small arrives done _ _ ran rfl
    exact ⟨_, _, _, Routine.run_map returned _, fun _ => ⟨rfl, errno⟩, fun short => absurd large (Nat.not_lt.mpr short)⟩
  · have ran := handOver_next (Nat.not_lt.mp large) answer Int.one_pos []
    obtain ⟨lib', returned, errno⟩ := @infoReadv_hands sys [⟨key, none, 0⟩] mode lib st asked (by simp) buf bufsz _ [read] more
      incoming (by simp) small arrives done _ _ ran (by cases taken <;> rfl)
    refine ⟨_, _, _, Routine.run_map returned _, fun long => absurd long large, fun _ => ?_⟩
    cases taken with
    | none => exact ⟨rfl, rfl⟩
    | some value =>
      refine ⟨rfl, ?_⟩
      have moved := (buf.write 0 value).slice_move 0 0 value.length value.length 0 (Nat.zero_add _).le
      exact moved.trans (buf.slice_write 0 value)

/-- A read of one key takes the first INFO for an answer. So it is right if nothing comes before the reply, or if it
has no value to miss, and if the receive buffer of a binary connection can hold what comes first. -/
theorem single_read_iff (asked : Asked sys [⟨key, none, 0⟩] mode lib st)
    (empty : mode = .binary → (lib.rx st.link.serial).data = []) (buf : Mem) {bufsz : Nat} {others : List (List UInt8)}
    {reply : List UInt8} (apart : ∀ data ∈ others, cstr data ≠ cstr key) (mine : cstr reply = cstr key)
    (room : ∀ value, infoValue reply = some value → value.length ≤ bufsz) {reads more : List Read}
    (incoming : lib.incoming = reads ++ more)
    (arrives : List.Forall₂ (OwnRead mode) ((others ++ [reply]).map fun data => (msgInfo, data)) reads) :
    ∃ ret buf' lib', (infoRead sys key buf bufsz lib.st).run sys lib = (.ok (ret, buf'), lib') ∧
      (Answered reply ret buf' lib'.st.errno ↔
        (others = [] ∨ infoValue reply = none) ∧ (mode = .binary → (others.headD reply).length ≤ 65531)) := by
  -- what comes first, and whether it is for the key
  obtain ⟨first, rest, parts, head, taken⟩ : ∃ first rest, others ++ [reply] = first :: rest ∧ others.headD reply = first ∧
      (if cstr first = cstr key then infoValue first else none) = if others = [] then infoValue reply else none := by
    cases others with
    | nil => exact ⟨reply, [], rfl, rfl, by rw [if_pos mine, if_pos rfl]⟩
    | cons first others =>
      refine ⟨first, others ++ [reply], rfl, rfl, ?_⟩
      rw [if_neg (apart first List.mem_cons_self), if_neg (List.cons_ne_nil first others)]
  rw [parts, List.map_cons] at arrives
  obtain _ | ⟨own, -⟩ := arrives
  have room' : cstr first = cstr key → ∀ value, infoValue first = some value → value.length ≤ bufsz := by
    intro same value found
    rw [if_pos same, found] at taken
    split at taken
    · exact room value taken.symm
    · cases taken
  obtain ⟨ret, buf', lib', ran, fails, answers⟩ := infoRead_first asked empty buf room' incoming own
  refine ⟨ret, buf', lib', ran, ?_⟩
  have limit : (mode = .binary → first.length ≤ 65531) ↔ first.length ≤ payloadLimit mode := by
    have small : first.length < 65536 := own.small
    rw [payloadLimit]
    split
    next binary => exact ⟨fun short => short binary, fun short _ => short⟩
    next other => exact ⟨fun _ => by omega, fun _ binary => absurd binary other⟩
  rw [head, limit, Answered]
  by_cases large : payloadLimit mode < first.length
  · obtain ⟨rfl, enospc⟩ := fails large
    refine iff_of_false (fun answered => ?_) fun both => absurd both.2 (Nat.not_le.mpr large)
    split at answered
    · omega
    · rw [enospc] at answered
      cases answered.2
  · have answers := answers (Nat.not_lt.mp large)
    rw [taken] at answers
    by_cases alone : others = []
    · rw [if_pos alone] at answers
      refine iff_of_true ?_ ⟨.inl alone, Nat.not_lt.mp large⟩
      cases found : infoValue reply with
      | none | some =>
        rw [found] at answers
        exact answers
    · rw [if_neg alone] at answers
      cases found : infoValue reply with
      | none => exact iff_of_true answers ⟨.inr rfl, Nat.not_lt.mp large⟩
      | some value =>
        refine iff_of_false (fun answered => ?_) fun both => both.1.elim alone nofun
        obtain ⟨length, -⟩ := answered
        omega

end Single

/-- The reply for the key `a`, and before it an update of `x` or not. -/
def singleReads (pending : Bool) : List Read :=
  (if pending then [.received ⟨[0x81, 120, 0, 57], by decide⟩] else []) ++ [.received ⟨[0x81, 97, 0, 49, 50], by decide⟩]

theorem single_read_local :
    ∃ ret buf' lib', (infoRead serving [97] (fun _ => 0) 2 (opened false (singleReads false)).st).run serving
        (opened false (singleReads false)) = (.ok (ret, buf'), lib') ∧
      (Answered [97, 0, 49, 50] ret buf' lib'.st.errno ↔
        (([] : List (List UInt8)) = [] ∨ infoValue [97, 0, 49, 50] = none) ∧
          (Mode.framed = .binary → (([] : List (List UInt8)).headD [97, 0, 49, 50]).length ≤ 65531)) :=
  @single_read_iff serving .framed (opened false (singleReads false)) (requested false [⟨[97], none, 0⟩]) [97]
    ⟨rfl, rfl, rfl, rfl, fun _ => rfl, nofun⟩ nofun (fun _ => 0) 2 [] [97, 0, 49, 50] nofun rfl
    (fun _ found => by cases found; decide) (singleReads false) [] (List.append_nil _).symm (.cons ⟨_, rfl⟩ .nil)

/-- An update that is pending makes the read fail as if the key had no value. -/
theorem single_read_pending :
    ∃ buf' lib', (infoRead serving [97] (fun _ => 0) 2 (opened false (singleReads true)).st).run serving
        (opened false (singleReads true)) = (.ok (-1, buf'), lib') ∧ lib'.st.errno = .enoent ∧
      infoValue [97, 0, 49, 50] = some [49, 50] := ⟨_, _, rfl, rfl, rfl⟩

end Infod.Info

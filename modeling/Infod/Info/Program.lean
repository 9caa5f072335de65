import Infod.Info.Reads

/-!
# The program

`info`, which is an application of the library. Its arguments are options and then commands. The commands are all checked before
the first of them is carried out, and are carried out in one transaction. What is printed is left out, and so is what
the signal of a timeout does to the connection.
-/

namespace Infod.Info.Program

/-! ### Arguments -/

structure Options where
  keyDelim : Option (List UInt8)
  timeout : Int
  blank : Bool
  all : Bool
  clear : Bool
  socket : Option (List UInt8)

def Options.init : Options := ⟨none, -1, false, false, false, none⟩

/-- Gathers the options, up to the first argument that is none. What `sscanf` makes of a number of seconds is a parameter. -/
def gather (scan : List UInt8 → Option Int) : List (List UInt8) → Options → Option (Options × List (List UInt8))
  | [], o => some (o, [])
  | opt :: args, o =>
    if opt.take 2 = ascii "-k" then
      gather scan args { o with keyDelim := some (if opt.drop 2 = [] then ascii " " else opt.drop 2) }
    else if opt = ascii "-S" then
      match args with
      | [] => none
      | arg :: args => gather scan args { o with socket := some arg }
    else if opt = ascii "-A" then gather scan args { o with all := true }
    else if opt = ascii "-C" then gather scan args { o with clear := true }
    else if opt = ascii "-b" then gather scan args { o with blank := true }
    else if opt.take 2 = ascii "-t" then
      match opt.drop 2, args with
      | [], [] => none
      | [], arg :: args => (scan arg).bind fun timeout => gather scan args { o with timeout }
      | arg, args => (scan arg).bind fun timeout => gather scan args { o with timeout }
    else some (o, opt :: args)

inductive Checked where
  | accepted
  | usage
  | overread
  deriving DecidableEq

/-- The second loop: whether the commands will be understood. -/
def check : List (List UInt8) → Checked
  | [] => .accepted
  | [] :: args => check args
  | (c :: opt) :: args =>
    if c ≠ chr '-' then check args
    else
      match opt, args with
      -- `strchr` finds the NUL that ends "rwds", and `opt[2]` is not part of the argument
      | [], _ => .overread
      | [_], [] => .usage
      | [letter], arg :: args =>
        if letter ∉ ascii "rwds" ∨ letter = chr 'w' ∧ chr '=' ∉ arg then .usage else check args
      | letter :: arg, args =>
        if letter ∉ ascii "rwds" ∨ letter = chr 'w' ∧ chr '=' ∉ arg then .usage else check args

/-- What a turn of the third loop does: a call, nothing at all, or something that is undefined. -/
inductive Turn where
  | call (call : InfoCall)
  | nothing
  | undefined

/-- The `switch`; the data of an option that is the last argument is NULL. -/
def perform (letter : UInt8) (data : List UInt8) : Turn :=
  if letter = chr 'r' then .call (.txRead data)
  else if letter = chr 'w' then
    if chr '=' ∈ data then
      .call (.txWrite (data.takeWhile (· != chr '=')) (data.dropWhile (· != chr '=')).tail)
    else .undefined
  else if letter = chr 'd' then .call (.txDelete data)
  else if letter = chr 's' then .call (.txSub data)
  else .nothing

/-- The third loop. -/
def turns : List (List UInt8) → List Turn
  | [] => []
  | [] :: args => perform (chr 'r') [] :: turns args
  | (c :: opt) :: args =>
    if c ≠ chr '-' then perform (if chr '=' ∈ c :: opt then chr 'w' else chr 'r') (c :: opt) :: turns args
    else
      match opt, args with
      | [], _ => [.undefined]
      | [letter], [] => [if letter ∈ ascii "rwds" then .undefined else .nothing]
      | [letter], data :: args => perform letter data :: turns args
      | letter :: data, args => perform letter data :: turns args

/-- What the usage text has for a letter. -/
inductive Command : UInt8 → List UInt8 → InfoCall → Prop where
  | read (key : List UInt8) : Command (chr 'r') key (.txRead key)
  | write {key : List UInt8} (value : List UInt8) (plain : chr '=' ∉ key) :
      Command (chr 'w') (key ++ chr '=' :: value) (.txWrite key value)
  | delete (key : List UInt8) : Command (chr 'd') key (.txDelete key)
  | sub (pattern : List UInt8) : Command (chr 's') pattern (.txSub pattern)

/-- The arguments of the usage text, and the calls they stand for. Without a letter a key is read, and one with a value is written. -/
inductive Usage : List (List UInt8) → List InfoCall → Prop where
  | none_ : Usage [] []
  | implied {data : List UInt8} {args : List (List UInt8)} {call : InfoCall} {calls : List InfoCall}
      (start : data.head? ≠ some (chr '-')) (command : Command (if chr '=' ∈ data then chr 'w' else chr 'r') data call)
      (rest : Usage args calls) : Usage (data :: args) (call :: calls)
  | joined {letter : UInt8} {data : List UInt8} {args : List (List UInt8)} {call : InfoCall} {calls : List InfoCall}
      (some_ : data ≠ []) (command : Command letter data call) (rest : Usage args calls) :
      Usage ((chr '-' :: letter :: data) :: args) (call :: calls)
  | apart {letter : UInt8} {data : List UInt8} {args : List (List UInt8)} {call : InfoCall} {calls : List InfoCall}
      (command : Command letter data call) (rest : Usage args calls) :
      Usage ([chr '-', letter] :: data :: args) (call :: calls)

section Arguments

variable {letter : UInt8} {data : List UInt8} {args : List (List UInt8)} {call : InfoCall} {calls : List InfoCall}

theorem split_binding (bound : chr '=' ∈ data) :
    data = data.takeWhile (· != chr '=') ++ chr '=' :: (data.dropWhile (· != chr '=')).tail ∧
      chr '=' ∉ data.takeWhile (· != chr '=') := by
  constructor
  · induction data with
    | nil => cases bound
    | cons b data ih =>
      by_cases here : b = chr '='
      · simp [here]
      · have later : chr '=' ∈ data := by simpa [Ne.symm here] using bound
        simpa [here] using ih later
  · intro member
    simpa using List.mem_takeWhile_imp member

theorem perform_binding {key : List UInt8} (value : List UInt8) (plain : chr '=' ∉ key) :
    perform (chr 'w') (key ++ chr '=' :: value) = .call (.txWrite key value) := by
  have kept : ∀ b ∈ key, (b != chr '=') = true := by
    intro b member
    rw [bne_iff_ne]
    exact fun same => plain (same ▸ member)
  rw [perform, if_neg (by decide), if_pos rfl, if_pos (by simp), List.takeWhile_append_of_pos kept,
    List.dropWhile_append_of_pos kept]
  simp

/-- The `switch` carries out the commands of the usage text. -/
theorem perform_iff : perform letter data = .call call ↔ Command letter data call := by
  constructor
  · intro performs
    simp only [perform] at performs
    split at performs
    next isRead =>
      cases performs
      exact isRead ▸ .read data
    split at performs
    next isWrite =>
      split at performs
      next bound =>
        cases performs
        obtain ⟨parts, plain⟩ := split_binding bound
        have command := Command.write (data.dropWhile (· != chr '=')).tail plain
        rw [← parts] at command
        exact isWrite ▸ command
      · cases performs
    split at performs
    next isDelete =>
      cases performs
      exact isDelete ▸ .delete data
    split at performs
    next isSub =>
      cases performs
      exact isSub ▸ .sub data
    · cases performs
  · intro command
    cases command with
    | read => rfl
    | write value plain => exact perform_binding value plain
    | delete => rfl
    | sub => rfl

/-- What the check lets pass. -/
theorem command_iff :
    (∃ call, Command letter data call) ↔ ¬ (letter ∉ ascii "rwds" ∨ letter = chr 'w' ∧ chr '=' ∉ data) := by
  constructor
  · rintro ⟨call, command⟩
    cases command with
    | read => simp [ascii, chr]
    | write value plain => simp [ascii, chr]
    | delete => simp [ascii, chr]
    | sub => simp [ascii, chr]
  · intro passes
    obtain ⟨known, bound⟩ := not_or.mp passes
    have letters : letter = chr 'r' ∨ letter = chr 'w' ∨ letter = chr 'd' ∨ letter = chr 's' := by
      have same : ascii "rwds" = [chr 'r', chr 'w', chr 'd', chr 's'] := by decide
      simpa only [same, List.mem_cons, List.not_mem_nil, or_false, not_not] using known
    rcases letters with rfl | rfl | rfl | rfl
    · exact ⟨_, .read data⟩
    · obtain ⟨parts, plain⟩ := @split_binding data (by simpa using bound)
      have command := Command.write (data.dropWhile (· != chr '=')).tail plain
      rw [← parts] at command
      exact ⟨_, command⟩
    · exact ⟨_, .delete data⟩
    · exact ⟨_, .sub data⟩

/-- Without a letter, every argument is a command. -/
theorem implied_command (data : List UInt8) : ∃ call, Command (if chr '=' ∈ data then chr 'w' else chr 'r') data call := by
  split
  next bound =>
    refine command_iff.mpr (not_or.mpr ⟨not_not.mpr (by decide), fun missing => missing.2 bound⟩)
  · exact ⟨_, .read data⟩

/-- An argument that does not start with `-` is the data of a command. -/
theorem implied_turn {c : UInt8} (other : c ≠ chr '-') (opt : List UInt8) (args : List (List UInt8)) :
    check ((c :: opt) :: args) = check args ∧
      turns ((c :: opt) :: args) = perform (if chr '=' ∈ c :: opt then chr 'w' else chr 'r') (c :: opt) :: turns args := by
  rw [check.eq_def, turns.eq_def]
  exact ⟨if_pos other, if_pos other⟩

/-- What passes the check is as the usage text has it. -/
theorem usage_of_check (accepted : check args = .accepted) : ∃ calls, Usage args calls := by
  fun_induction check args with
  | case1 => exact ⟨[], .none_⟩
  | case2 args ih =>
    obtain ⟨calls, usage⟩ := ih accepted
    exact ⟨_, .implied (by simp) (.read []) usage⟩
  | case3 c opt args other ih =>
    obtain ⟨calls, usage⟩ := ih accepted
    obtain ⟨call, command⟩ := implied_command (c :: opt)
    exact ⟨_, .implied (by simpa using other) command usage⟩
  | case4 | case5 | case6 | case8 => cases accepted
  | case7 c dash letter arg args passes ih =>
    obtain ⟨calls, usage⟩ := ih accepted
    obtain ⟨call, command⟩ := command_iff.mpr passes
    cases not_not.mp dash
    exact ⟨_, .apart command usage⟩
  | case9 c dash letter arg args last next passes ih =>
    obtain ⟨calls, usage⟩ := ih accepted
    obtain ⟨call, command⟩ := command_iff.mpr passes
    cases not_not.mp dash
    refine ⟨_, .joined ?_ command usage⟩
    rintro rfl
    cases args with
    | nil => exact last rfl rfl
    | cons arg args => exact next arg args rfl rfl

/-- A command of the usage text passes the check, and is carried out. -/
theorem Usage.carried (usage : Usage args calls) : check args = .accepted ∧ turns args = calls.map .call := by
  induction usage with
  | none_ => exact ⟨rfl, rfl⟩
  | @implied data args call calls start command rest ih =>
    obtain ⟨accepted, same⟩ := ih
    have performs := perform_iff.mpr command
    cases data with
    | nil => exact ⟨accepted, congrArg₂ List.cons performs same⟩
    | cons c opt =>
      have other : c ≠ chr '-' := by simpa using start
      obtain ⟨checks, carries⟩ := implied_turn other opt args
      rw [checks, carries, performs, same]
      exact ⟨accepted, rfl⟩
  | @joined letter data args call calls some_ command rest ih =>
    obtain ⟨accepted, same⟩ := ih
    obtain ⟨b, data, rfl⟩ := List.exists_cons_of_ne_nil some_
    have passes := command_iff.mp ⟨call, command⟩
    have performs := perform_iff.mpr command
    simp only [check, turns, ne_eq, not_true_eq_false, if_false, passes, performs, accepted, same, List.map_cons, and_self]
  | @apart letter data args call calls command rest ih =>
    obtain ⟨accepted, same⟩ := ih
    have passes := command_iff.mp ⟨call, command⟩
    have performs := perform_iff.mpr command
    simp only [check, turns, ne_eq, not_true_eq_false, if_false, passes, performs, accepted, same, List.map_cons, and_self]

/-- The check lets exactly those arguments pass that the usage text describes, and then the calls they stand for are
made: no argument is skipped, read twice or read behind its end. -/
theorem arguments_iff (args : List (List UInt8)) :
    check args = .accepted ↔ ∃ calls, Usage args calls ∧ turns args = calls.map .call := by
  constructor
  · intro accepted
    obtain ⟨calls, usage⟩ := usage_of_check accepted
    exact ⟨calls, usage, usage.carried.2⟩
  · rintro ⟨calls, usage, -⟩
    exact usage.carried.1

end Arguments

/-! ### The transaction -/

/-- The calls of `action_cb`. -/
def actionCb (o : Options) (key : List UInt8) (value : Option (List UInt8)) : Script :=
  ⟨if o.clear ∧ value.isSome then [.delete key] else [], 1⟩

/-- How the program ends: with status 2, with 1, or with the number of keys that were deleted; or not by itself. -/
inductive Ended where
  | usage
  | failed
  | done
  | fault (fault : Fault)
  | undefined

/-- What follows a call, and `goto fail`. -/
def proceed (returned : Except Fault Returned × Library) (next : Library → Ended × Library) : Ended × Library :=
  match returned with
  | (.error fault, lib) => (.fault fault, lib)
  | (.ok (.int n), lib) => if n = -1 then (.failed, lib) else next lib
  | (.ok _, lib) => next lib

def carryOut (sys : InfoSys) : List Turn → Library → Ended × Library
  | [], lib => (.done, lib)
  | .nothing :: turns, lib => carryOut sys turns lib
  | .undefined :: _, lib => (.undefined, lib)
  | .call call :: turns, lib => proceed (infoCall sys lib call) (carryOut sys turns)

/-- For -A and -C, all keys. The subscription is ended at once, or there would be feedback of what is deleted. -/
def Options.subscription (o : Options) : List InfoCall :=
  if o.all || o.clear then [.txSub (ascii "*"), .txUnsub (ascii "*")] else []

def isSub : Turn → Bool
  | .call (.txSub _) => true
  | _ => false

/-- Waits for changes after the transaction, if there are subscriptions, and a timeout other than 0. -/
def watch (o : Options) (commands : List Turn) : List Turn :=
  let timeout := if (o.all || o.clear) ∧ o.timeout = -1 then 0 else o.timeout
  if (o.all || o.clear || commands.any isSub) ∧ timeout ≠ 0 then [.call (.loop true)] else []

/-- The first calls of the program, before others. -/
def opening (o : Options) (rest : List Turn) : List Turn :=
  if o.socket.isSome then .call (.open_ true) :: .call .txBegin :: rest else .call .txBegin :: rest

/-- What `main` does with its commands. -/
def session (o : Options) (commands : List Turn) : List Turn :=
  opening o (o.subscription.map .call ++ commands ++ .call (.txCommit true) :: watch o commands)

/-- The system calls, and what the application does when it is called back. -/
def Options.system (o : Options) (sys : InfoSys) : InfoSys := { sys with callback := fun _ => actionCb o }

def main (scan : List UInt8 → Option Int) (sys : InfoSys) (args : List (List UInt8)) (incoming : List Read) :
    Ended × Library :=
  match gather scan args .init with
  | none => (.usage, .start sys incoming)
  | some (o, args) =>
    match check args with
    | .usage => (.usage, .start sys incoming)
    | .overread => (.undefined, .start sys incoming)
    | .accepted => carryOut (o.system sys) (session o (turns args)) (.start (o.system sys) incoming)

/-- What is sent for a command. -/
def request : InfoCall → UInt8 × List UInt8
  | .txWrite key value => (cmdWrite, cstr key ++ 0 :: value)
  | .txDelete key => (cmdWrite, cstr key)
  | .txSub pattern => (cmdSub, cstr pattern)
  | .txUnsub pattern => (cmdUnsub, cstr pattern)
  | .txRead key => (cmdRead, cstr key)
  | _ => (cmdPing, [])

/-- The messages of the program. -/
def transaction (o : Options) (calls : List InfoCall) : List (UInt8 × List UInt8) :=
  (cmdBegin, []) :: (o.subscription ++ calls).map request ++ [(cmdPing, []), (cmdCommit, [])]

section Transaction

variable {sys : InfoSys} {mode : Mode} {st : State} {lib : Library} {incoming : List Read}

theorem accepted_append (n : Nat) (messages more : List (UInt8 × List UInt8)) :
    Accepted sys mode n (messages ++ more) ↔
      Accepted sys mode n messages ∧ Accepted sys mode (n + messages.length) more := by
  induction messages generalizing n with
  | nil => simp [Accepted]
  | cons message messages ih =>
    simp only [List.cons_append, Accepted, ih, List.length_cons, and_assoc, Nat.add_assoc, Nat.add_comm 1]

/-- The state after messages have been sent. -/
def sending (st : State) (messages : List (UInt8 × List UInt8)) : State :=
  { st with link :=
    { st.link with outputs := st.link.outputs + messages.length, sent := st.link.sent ++ messages } }

theorem outputAll_takes (known : st.link.proto = some mode) {messages : List (UInt8 × List UInt8)}
    (accepted : Accepted sys mode st.link.outputs messages) :
    outputAll sys messages st = some (0, sending st messages) := by
  induction messages generalizing st with
  | nil => simp [outputAll, sending]
  | cons message messages ih =>
    obtain ⟨msg, payload⟩ := message
    obtain ⟨small, went, rest⟩ := accepted
    have later := @ih (sending st [(msg, payload)]) known rest
    rw [outputAll, protoOutput, known, Option.map_some, if_neg small]
    simp only [went, Option.bind_eq_bind, Option.bind_some]
    rw [if_neg (by split <;> omega)]
    simpa [sending, Nat.add_assoc, Nat.add_comm 1] using later

theorem outputAll_refuses (known : st.link.proto = some mode) {messages : List (UInt8 × List UInt8)}
    (refused : ¬ Accepted sys mode st.link.outputs messages) :
    ∃ st', outputAll sys messages st = some (-1, st') ∧ st'.waitret = st.waitret := by
  obtain ⟨ret, st', ran, code⟩ := @outputAll_accepted sys st mode known messages
  cases code.mpr refused
  exact ⟨st', ran, outputAll_waitret ran⟩

/-- These messages have been sent, in a transaction that goes on. -/
structure Transacts (mode : Mode) (incoming : List Read) (messages : List (UInt8 × List UInt8)) (lib : Library) : Prop where
  proto : lib.st.link.proto = some mode
  begun : lib.st.link.txBegun = 1
  sent : lib.st.link.sent = messages
  outputs : lib.st.link.outputs = messages.length
  outside : lib.st.waitret.inCb = false
  unread : lib.incoming = incoming

/-- The program has given up, with the connection closed and nothing read. -/
def GivesUp (incoming : List Read) (run : Ended × Library) : Prop :=
  ∃ lib, run = (.failed, lib) ∧ lib.st.link.fd = -1 ∧ lib.incoming = incoming

/-- The program sends these messages and goes on, or gives up if they do not all go out. -/
structure Proceeds (sys : InfoSys) (mode : Mode) (incoming : List Read) (sent messages : List (UInt8 × List UInt8))
    (run : Ended × Library) (next : Library → Ended × Library) : Prop where
  goes : Accepted sys mode sent.length messages → ∃ lib, Transacts mode incoming (sent ++ messages) lib ∧ run = next lib
  fails : ¬ Accepted sys mode sent.length messages → GivesUp incoming run

variable {sent messages more : List (UInt8 × List UInt8)} {run : Ended × Library} {next next' : Library → Ended × Library}

theorem Proceeds.trans (first : Proceeds sys mode incoming sent messages run next)
    (second : ∀ lib, Transacts mode incoming (sent ++ messages) lib →
      Proceeds sys mode incoming (sent ++ messages) more (next lib) next') :
    Proceeds sys mode incoming sent (messages ++ more) run next' := by
  have parts := @accepted_append sys mode sent.length messages more
  constructor
  · intro accepted
    obtain ⟨front, back⟩ := parts.mp accepted
    obtain ⟨lib, transacts, rfl⟩ := first.goes front
    rw [← List.append_assoc]
    exact (second lib transacts).goes (by simpa using back)
  · intro refused
    by_cases front : Accepted sys mode sent.length messages
    · obtain ⟨lib, transacts, rfl⟩ := first.goes front
      refine (second lib transacts).fails fun back => refused (parts.mpr ⟨front, ?_⟩)
      simpa using back
    · exact first.fails front

/-- A call that sends something fails if it does not go out, and closes the connection. -/
theorem gives_up {call : InfoCall} (st : State) (known : st.link.proto = some mode) (outside : st.waitret.inCb = false)
    {then_ : State → Routine Int} (calls : routine sys call lib.st = (Routine.after (outputAll sys messages st) (-1) then_).int)
    (unread : lib.incoming = incoming) (refused : ¬ Accepted sys mode st.link.outputs messages) :
    GivesUp incoming (proceed (infoCall sys lib call) next) := by
  obtain ⟨st', ran, same⟩ := outputAll_refuses known refused
  have closed := @infoClose_outside st' (same ▸ outside)
  rw [infoCall, calls, ran]
  refine ⟨_, rfl, ?_, unread⟩
  simp [closed, State.logged]

/-- Otherwise it returns. -/
theorem Proceeds.call {call : InfoCall} (st : State) (after : State → State) (known : st.link.proto = some mode)
    (outside : st.waitret.inCb = false) (count : st.link.outputs = sent.length) (sofar : st.link.sent = sent)
    (calls : routine sys call lib.st = (Routine.after (outputAll sys messages st) (-1) fun st => .returns 0 (after st)).int)
    (begun : (after (sending st messages)).link = { (sending st messages).link with txBegun := 1 })
    (waitret : ∀ st, (after st).waitret = st.waitret) (unread : lib.incoming = incoming) :
    Proceeds sys mode incoming sent messages (proceed (infoCall sys lib call) next) next := by
  constructor
  · intro accepted
    rw [← count] at accepted
    rw [infoCall, calls, outputAll_takes known accepted]
    refine ⟨_, ?_, rfl⟩
    constructor
    case outside => exact (congrArg Waitret.inCb (waitret _)).trans outside
    case unread => exact unread
    case proto => exact (congrArg Link.proto begun).trans known
    case begun => exact congrArg Link.txBegun begun
    case sent => exact (congrArg Link.sent begun).trans (by simp [sending, sofar])
    case outputs => exact (congrArg Link.outputs begun).trans (by simp [sending, count])
  · intro refused
    rw [← count] at refused
    exact gives_up st known outside calls unread refused

/-- The calls between `info_tx_begin` and `info_tx_commit`. -/
def Requests (call : InfoCall) : Prop :=
  ∀ sys st, routine sys call st = (txOutput sys (request call).1 (request call).2 st).int

theorem Transacts.one (transacts : Transacts mode incoming sent lib) {call : InfoCall} (requests : Requests call) :
    Proceeds sys mode incoming sent [request call] (proceed (infoCall sys lib call) next) next := by
  apply Proceeds.call lib.st id transacts.proto transacts.outside transacts.outputs transacts.sent
  case calls =>
    rw [requests, txOutput, transacts.begun, if_neg Nat.one_ne_zero]
    rfl
  case begun => simp [sending, transacts.begun]
  case waitret => exact fun _ => rfl
  case unread => exact transacts.unread

/-- The commands, one after the other. -/
theorem Transacts.all (transacts : Transacts mode incoming sent lib) {calls : List InfoCall}
    (requests : ∀ call ∈ calls, Requests call) (rest : List Turn) :
    Proceeds sys mode incoming sent (calls.map request) (carryOut sys (calls.map .call ++ rest) lib) (carryOut sys rest) := by
  induction calls generalizing sent lib with
  | nil => exact ⟨fun _ => ⟨lib, by simpa using transacts, rfl⟩, fun refused => absurd trivial refused⟩
  | cons call calls ih =>
    obtain ⟨first, others⟩ := List.forall_mem_cons.mp requests
    exact (transacts.one first).trans fun lib' transacts' => ih transacts' others

theorem Transacts.commits (transacts : Transacts mode incoming sent lib) : routine sys (.txCommit true) lib.st =
    (Routine.after (outputAll sys [(cmdPing, []), (cmdCommit, [])] { lib.st with waitret := .zero }) (-1) fun st =>
      .waits msgPong { st with link := { st.link with txBegun := 0 }, waitret := { st.waitret with infoCb := true } }
        finish).int := by
  simp [routine, infoTxCommit, transacts.begun, waitretInit, transacts.outside]

/-- At the end of the transaction the program waits for PONG. -/
theorem Transacts.waits (transacts : Transacts mode incoming sent lib)
    (accepted : Accepted sys mode sent.length [(cmdPing, []), (cmdCommit, [])]) :
    ∃ st resume, routine sys (.txCommit true) lib.st = .waits msgPong st resume ∧
      st.link.sent = sent ++ [(cmdPing, []), (cmdCommit, [])] := by
  rw [← transacts.outputs] at accepted
  rw [transacts.commits, @outputAll_takes sys mode { lib.st with waitret := .zero } transacts.proto _ accepted]
  exact ⟨_, _, rfl, by simp [sending, transacts.sent]⟩

end Transaction

/-! ### The connection -/

section Start

variable {sys : InfoSys} {incoming : List Read}

/-- The mode of the connection. -/
def Options.mode (o : Options) : Mode := if o.socket.isSome then .binary else .framed

/-- The first connection of the program, or none. -/
theorem infoOpen_start (sys : InfoSys) (hostport : Bool) :
    (∃ fd st, infoOpen sys hostport .start = (0, st) ∧ fd ≠ -1 ∧
      st.link = ⟨fd, some (if hostport then .binary else .framed), 0, 1, [], 0⟩ ∧ st.waitret = .zero) ∨
    ∃ st, infoOpen sys hostport .start = (-1, st) ∧ st.link.fd = -1 := by
  obtain ⟨fd, link, -, waitret⟩ := @connectLoop_same sys .start sys.retries
  have ready : waitretInit .start = (0, State.start) := rfl
  have closed : infoClose { State.start with lastError := [] } = (0, State.start) := rfl
  rw [infoOpen, if_neg (by simp [State.start])]
  simp only [ready, closed, Int.reduceNeg, Int.reduceEq, if_false]
  generalize connectLoop sys sys.retries .start = st at link waitret ⊢
  by_cases connected : st.link.fd = -1
  · rw [if_pos connected]
    exact .inr ⟨st, rfl, connected⟩
  · rw [if_neg connected]
    cases memory : sys.malloc st.mallocs with
    | false =>
      have outside : st.waitret.inCb = false := by rw [waitret]; rfl
      exact .inr ⟨_, rfl, by simp [infoClose, outside]⟩
    | true =>
      refine .inl ⟨fd, _, rfl, ?_, ?_, waitret⟩
      · simpa [link] using connected
      · simp [link, State.start]

/-- `info_tx_begin` on a connection on which nothing has been sent. -/
theorem begins_transaction {mode : Mode} {lib : Library} {st : State} {fd : Int} {serial : Nat}
    {next : Library → Ended × Library} (idle : lib.st.link.txBegun = 0) (opens : infoOpen sys false lib.st = (0, st))
    (link : st.link = ⟨fd, some mode, 0, serial, [], 0⟩) (outside : st.waitret.inCb = false) (unread : lib.incoming = incoming) :
    Proceeds sys mode incoming [] [(cmdBegin, [])] (proceed (infoCall sys lib .txBegin) next) next := by
  apply Proceeds.call st fun st => { st with link := { st.link with txBegun := 1 } }
  case calls => simp [routine, infoTxBegin, idle, opens]
  case outside => exact outside
  case unread => exact unread
  case waitret => exact fun _ => rfl
  all_goals simp [link, sending]

/-- A call for which there is no connection. -/
theorem gives_up_connecting {lib : Library} {call : InfoCall} {st : State} {next : Library → Ended × Library}
    (fails : routine sys call lib.st = .returns (.int (-1)) st) (closed : st.link.fd = -1) :
    GivesUp lib.incoming (proceed (infoCall sys lib call) next) := by
  rw [infoCall, fails]
  exact ⟨_, rfl, closed, rfl⟩

/-- The program connects and begins the transaction, or gives up. -/
theorem begins_session (sys : InfoSys) (incoming : List Read) (o : Options) (rest : List Turn) :
    (infoOpen sys o.socket.isSome .start).1 = 0 ∧ Proceeds sys o.mode incoming [] [(cmdBegin, [])]
        (carryOut sys (opening o rest) (.start sys incoming)) (carryOut sys rest) ∨
    (infoOpen sys o.socket.isSome .start).1 ≠ 0 ∧ GivesUp incoming (carryOut sys (opening o rest) (.start sys incoming)) := by
  rw [Options.mode, opening]
  cases o.socket.isSome with
  | false =>
    rcases infoOpen_start sys false with ⟨fd, st, opens, connected, link, waitret⟩ | ⟨st, fails, closed⟩
    · exact .inl ⟨by rw [opens], begins_transaction rfl opens link (by rw [waitret]; rfl) rfl⟩
    · refine .inr ⟨by simp [fails], @gives_up_connecting sys (.start sys incoming) _ st _ ?_ closed⟩
      have start : (Library.start sys incoming).st = .start := rfl
      have idle : State.start.link.txBegun = 0 := rfl
      simp [routine, infoTxBegin, start, idle, fails, Routine.int, Routine.map]
  | true =>
    rcases infoOpen_start sys true with ⟨fd, st, opens, connected, link, waitret⟩ | ⟨st, fails, closed⟩
    · refine .inl ⟨by rw [opens], ?_⟩
      -- `info_tx_begin` finds the connection open
      have called : infoCall sys (.start sys incoming) (.open_ true) =
          (.ok (.int 0), { Library.start sys incoming with st := st.logged (.open_ true) .start }) := by
        have start : (Library.start sys incoming).st = .start := rfl
        rw [infoCall, routine, start, opens]
        rfl
      have again : infoOpen sys false (st.logged (.open_ true) .start) = (0, st.logged (.open_ true) .start) := by
        rw [infoOpen, if_pos]
        simp [State.logged, link, connected]
      rw [if_pos rfl, if_pos rfl, carryOut, called]
      refine begins_transaction ?_ again link (by rw [State.logged, waitret]; rfl) rfl
      simp [State.logged, link]
    · refine .inr ⟨by simp [fails], @gives_up_connecting sys (.start sys incoming) _ st _ ?_ closed⟩
      have start : (Library.start sys incoming).st = .start := rfl
      rw [routine, start, fails]

end Start

/-- The commands of the usage text are sent as they are. -/
theorem Usage.requests {args : List (List UInt8)} {calls : List InfoCall} (usage : Usage args calls) :
    ∀ call ∈ calls, Requests call := by
  have command {letter : UInt8} {data : List UInt8} {call : InfoCall} (command : Command letter data call) : Requests call := by
    cases command <;> exact fun _ _ => rfl
  induction usage with
  | none_ => exact List.forall_mem_nil _
  | implied _ first _ ih | joined _ first _ ih | apart first _ ih => exact List.forall_mem_cons.mpr ⟨command first, ih⟩

theorem Options.requests (o : Options) : ∀ call ∈ o.subscription, Requests call := by
  rw [Options.subscription]
  split
  · intro call member
    rcases List.mem_pair.mp member with rfl | rfl <;> exact fun _ _ => rfl
  · exact List.forall_mem_nil _

/-- Whatever the system calls do: all commands of the arguments go to the daemon in one transaction, in their order, and not
before COMMIT has gone out as well does the program read anything; or COMMIT does not go out, and the program fails and
closes the connection, with which the daemon forgets the transaction. -/
theorem main_transacts (scan : List UInt8 → Option Int) (sys : InfoSys) (incoming : List Read) {args rest : List (List UInt8)}
    {o : Options} (gathered : gather scan args .init = some (o, rest)) (accepted : check rest = .accepted) :
    ∃ calls, Usage rest calls ∧
      ((infoOpen (o.system sys) o.socket.isSome .start).1 = 0 ∧ Accepted (o.system sys) o.mode 0 (transaction o calls) →
        ∃ lib st resume, routine (o.system sys) (.txCommit true) lib.st = .waits msgPong st resume ∧
          st.link.sent = transaction o calls ∧ lib.incoming = incoming ∧
          main scan sys args incoming = proceed (infoCall (o.system sys) lib (.txCommit true))
            (carryOut (o.system sys) (watch o (calls.map .call)))) ∧
      (¬ ((infoOpen (o.system sys) o.socket.isSome .start).1 = 0 ∧ Accepted (o.system sys) o.mode 0 (transaction o calls)) →
        GivesUp incoming (main scan sys args incoming)) := by
  obtain ⟨calls, usage⟩ := usage_of_check accepted
  have runs : main scan sys args incoming = carryOut (o.system sys) (opening o ((o.subscription ++ calls).map .call ++
      .call (.txCommit true) :: watch o (calls.map .call))) (.start (o.system sys) incoming) := by
    simp [main, gathered, accepted, session, usage.carried.2]
  refine ⟨calls, usage, ?_⟩
  rw [runs]
  rcases begins_session (o.system sys) incoming o ((o.subscription ++ calls).map .call ++
    .call (.txCommit true) :: watch o (calls.map .call)) with ⟨opens, begins⟩ | ⟨fails, gives⟩
  · have requests : ∀ call ∈ o.subscription ++ calls, Requests call := List.forall_mem_append.mpr ⟨o.requests, usage.requests⟩
    have proceeds := begins.trans fun lib transacts =>
      transacts.all requests (.call (.txCommit true) :: watch o (calls.map .call))
    have parts := @accepted_append (o.system sys) o.mode 0 ((cmdBegin, []) :: (o.subscription ++ calls).map request)
      [(cmdPing, []), (cmdCommit, [])]
    constructor
    · intro goes
      obtain ⟨front, back⟩ := parts.mp goes.2
      obtain ⟨lib, transacts, same⟩ := proceeds.goes front
      obtain ⟨st, resume, waits, sent⟩ := transacts.waits (by simpa using back)
      exact ⟨lib, st, resume, waits, sent, transacts.unread, same⟩
    · intro stops
      by_cases front : Accepted (o.system sys) o.mode 0 ((cmdBegin, []) :: (o.subscription ++ calls).map request)
      · obtain ⟨lib, transacts, same⟩ := proceeds.goes front
        rw [same]
        refine gives_up { lib.st with waitret := .zero } transacts.proto rfl transacts.commits transacts.unread fun back =>
          stops ⟨opens, parts.mpr ⟨front, ?_⟩⟩
        simpa [transacts.outputs] using back
      · exact proceeds.fails front
  · exact ⟨fun goes => absurd goes.1 fails, fun _ => gives⟩

def clearing : Options := { Options.init with clear := true }

/-- `info -C a=1 -d b`, where the system calls succeed. -/
theorem main_transacts_clear :
    ∃ lib st resume, routine (clearing.system serving) (.txCommit true) lib.st = .waits msgPong st resume ∧
      st.link.sent = [(cmdBegin, []), (cmdSub, [42]), (cmdUnsub, [42]), (cmdWrite, [97, 0, 49]), (cmdWrite, [98]), (cmdPing, []),
        (cmdCommit, [])] ∧
      main (fun _ => none) serving [ascii "-C", ascii "a=1", ascii "-d", ascii "b"] [] =
        proceed (infoCall (clearing.system serving) lib (.txCommit true)) (carryOut (clearing.system serving) []) := by
  obtain ⟨calls, usage, goes, -⟩ := @main_transacts (fun _ => none) serving [] [ascii "-C", ascii "a=1", ascii "-d", ascii "b"]
    [ascii "a=1", ascii "-d", ascii "b"] clearing rfl (by decide)
  have same : [InfoCall.txWrite [97] [49], .txDelete [98]].map Turn.call = calls.map .call := usage.carried.2
  obtain rfl := (List.map_inj_right fun _ _ => Turn.call.inj).mp same
  have accepts (n : Nat) (messages : List (UInt8 × List UInt8)) : Accepted (clearing.system serving) .framed n messages := by
    induction messages generalizing n with
    | nil => trivial
    | cons message messages ih => exact ⟨by simp, rfl, ih _⟩
  obtain ⟨lib, st, resume, waits, sent, -, runs⟩ := goes ⟨rfl, accepts 0 _⟩
  exact ⟨lib, st, resume, waits, sent, runs⟩

end Infod.Info.Program

import Infod.Daemon.Limits

/-!
# What the handler leaves alone

Carrying out a command is a sequence of outputs and of assignments to the client's
bookkeeping, and an ERROR is the last of them. `CommandFrame` lists them; a relation that they all keep
holds across a command, up to the ERROR.
-/

namespace Infod

variable {σ : Type}

/-- A relation between the states before and after that everything in a command except for an
ERROR keeps. -/
structure CommandFrame (sys : DaemonSys) (fd : Nat) (rel : Server σ → Server σ → Prop) : Prop where
  refl : ∀ srv, rel srv srv
  trans : ∀ srv srv' srv'', rel srv srv' → rel srv' srv'' → rel srv srv''
  output : ∀ srv dest msg payload, msg ≠ msgError → rel srv (srv.protoOutput sys dest msg payload).2
  malloc : ∀ srv, rel srv (srv.malloc sys).2
  assign : ∀ srv (f : Client → Client),
    (∀ c, (f c).fd = c.fd ∧ (f c).bufcmds.elements = c.bufcmds.elements) → rel srv (srv.update fd f)
  store : ∀ srv store, rel srv { srv with store }
  record : ∀ srv act, (∀ dest msg payload, act ≠ .send dest msg payload) → rel srv (srv.record act)

/-- A result that is reached within the frame, or by an ERROR at its end. -/
def CommandFrame.Within (sys : DaemonSys) (fd : Nat) (rel : Server σ → Server σ → Prop) (srv : Server σ)
    (result : Int × Server σ) : Prop :=
  rel srv result.2 ∨ ∃ srv' code text, rel srv srv' ∧ result = srv'.protoOutputError sys fd code text

namespace CommandFrame

variable {sys : DaemonSys} {fd : Nat} {rel : Server σ → Server σ → Prop}

theorem error (frame : CommandFrame sys fd rel) (srv : Server σ) (code : ErrorCode) (text : List UInt8) :
    Within sys fd rel srv (srv.protoOutputError sys fd code text) :=
  .inr ⟨srv, code, text, frame.refl srv, rfl⟩

theorem Within.after (frame : CommandFrame sys fd rel) {srv srv' : Server σ} {result : Int × Server σ}
    (first : rel srv srv') (within : Within sys fd rel srv' result) : Within sys fd rel srv result := by
  rcases within with kept | ⟨srv'', code, text, kept, rfl⟩
  · exact .inl (frame.trans srv srv' result.2 first kept)
  · exact .inr ⟨srv'', code, text, frame.trans srv srv' srv'' first kept, rfl⟩

theorem dump (frame : CommandFrame sys fd rel) (pattern : List UInt8) (all : List (List UInt8)) (srv : Server σ) :
    rel srv (Infod.dump sys fd pattern all srv).2 := by
  induction all generalizing srv with
  | nil => exact frame.refl srv
  | cons keyvalue rest ih =>
    rw [Infod.dump]
    split
    · have sent := frame.output srv fd msgInfo keyvalue (by decide)
      dsimp only
      split
      · exact sent
      · exact frame.trans _ _ _ sent (ih _)
    · exact ih srv

theorem foldl (frame : CommandFrame sys fd rel) {α : Type} {turn : Server σ → α → Server σ}
    (turns : ∀ srv a, rel srv (turn srv a)) (all : List α) (srv : Server σ) :
    rel srv (all.foldl turn srv) := by
  induction all generalizing srv with
  | nil => exact frame.refl srv
  | cons a rest ih => exact frame.trans _ _ _ (turns srv a) (ih _)

theorem notify (frame : CommandFrame sys fd rel) (data : List UInt8) (srv : Server σ) :
    rel srv (Infod.notify sys data srv) := by
  refine frame.foldl (fun srv c => frame.foldl (fun srv pattern => ?_) c.subs srv) srv.allClients srv
  split
  · exact frame.output srv c.fd msgInfo data (by decide)
  · exact frame.refl srv

theorem afterStore (frame : CommandFrame sys fd rel) (failed data : List UInt8) (result : Int × σ) (srv : Server σ) :
    Within sys fd rel srv (Infod.afterStore sys fd failed data result srv) := by
  have stored : rel srv (Server.record { srv with store := result.2 } (.store data result.1)) :=
    frame.trans _ _ _ (frame.store srv result.2) (frame.record _ _ nofun)
  rw [Infod.afterStore]
  split
  · exact .inl stored
  · split
    · exact .after frame stored (frame.error ..)
    · exact .inl (frame.trans _ _ _ stored (frame.notify data _))

theorem onSub (frame : CommandFrame sys fd rel) (api : StoreApi σ) (client : Client) (data : List UInt8)
    (srv : Server σ) : Within sys fd rel srv (Infod.onSub sys api fd client data srv) := by
  have grown := frame.malloc srv
  rw [Infod.onSub]
  split
  · exact frame.error ..
  · split
    · exact frame.error ..
    · dsimp only
      split
      · exact .after frame grown (frame.error ..)
      · refine .inl (frame.trans _ _ _ grown ?_)
        have subscribed := frame.assign (srv.malloc sys).2
          (fun c => { c with subs := data :: c.subs, nsubs := u32 (c.nsubs + 1) }) fun c => ⟨rfl, rfl⟩
        have recorded := frame.record ((srv.malloc sys).2.update fd fun c =>
          { c with subs := data :: c.subs, nsubs := u32 (c.nsubs + 1) }) (.subscribe fd data) (by rintro _ _ _ ⟨⟩)
        exact frame.trans _ _ _ subscribed (frame.trans _ _ _ recorded (frame.dump data _ _))

theorem onUnsub (frame : CommandFrame sys fd rel) (client : Client) (data : List UInt8) (srv : Server σ) :
    rel srv (Infod.onUnsub fd client data srv).2 := by
  rw [Infod.onUnsub]
  split
  · have dropped := frame.assign srv
      (fun c => { c with subs := c.subs.erase data, nsubs := sub32 c.nsubs 1 }) fun c => ⟨rfl, rfl⟩
    exact frame.trans _ _ _ dropped (frame.record _ (.unsubscribe fd data) (by rintro _ _ _ ⟨⟩))
  · exact frame.refl srv

theorem onRead (frame : CommandFrame sys fd rel) (api : StoreApi σ) (data : List UInt8) (srv : Server σ) :
    Within sys fd rel srv (Infod.onRead sys api fd data srv) := by
  rw [Infod.onRead]
  split
  · exact frame.error ..
  · split
    · exact .inl (frame.output _ _ _ _ (by decide))
    · exact .inl (frame.output _ _ _ _ (by decide))

theorem onWrite (frame : CommandFrame sys fd rel) (api : StoreApi σ) (m : Message) (srv : Server σ) :
    Within sys fd rel srv (Infod.onWrite sys api fd m srv) := by
  rw [Infod.onWrite]
  split
  · split
    · exact .inl (frame.notify m.data srv)
    · exact frame.afterStore ..
  · exact frame.afterStore ..

theorem switch (frame : CommandFrame sys fd rel) (api : StoreApi σ) (client : Client) (m : Message)
    (srv : Server σ) : Within sys fd rel srv (Infod.switch sys api fd client m srv) := by
  rw [Infod.switch.eq_def]
  cases m.command with
  | hello => exact .inl (frame.output _ _ _ _ (by decide))
  | sub => exact frame.onSub ..
  | unsub => exact .inl (frame.onUnsub ..)
  | read => exact frame.onRead ..
  | write => exact frame.onWrite ..
  | ping => exact .inl (frame.output _ _ _ _ (by decide))
  | begin => exact .inl (frame.assign _ _ fun c => ⟨rfl, rfl⟩)
  | commit => exact frame.error ..
  | eof => exact frame.error ..
  | other id => exact frame.error ..

/-- A command that is not appended to the buffer is answered with an ERROR. -/
theorem appendCommand (frame : CommandFrame sys fd rel) {client : Client} {m : Message} {srv : Server σ}
    {result : Int × Server σ} (ran : Infod.appendCommand sys fd client m srv = .ok result) :
    (∃ srv' code text, rel srv srv' ∧ result = srv'.protoOutputError sys fd code text) ∨
    ∃ bufcmds, client.nbufcmds < maxBufcmds ∧ sys.malloc srv.mallocs = true ∧
      client.bufcmds.append srv.mallocs m = .ok bufcmds ∧
      result = (1, (srv.malloc sys).2.update fd fun c => { c with bufcmds }) := by
  rw [Infod.appendCommand] at ran
  split at ran
  next full =>
    cases ran
    exact .inl ⟨srv, _, _, frame.refl srv, rfl⟩
  next room =>
    dsimp only [Server.malloc] at ran
    split at ran
    next failed =>
      cases ran
      exact .inl ⟨_, _, _, frame.malloc srv, rfl⟩
    next memory =>
      split at ran
      · cases ran
      · cases ran
      next bufcmds appended =>
        cases ran
        exact .inr ⟨bufcmds, by omega, by simpa using memory, appended, rfl⟩

/-- What an ERROR and every assignment to the client keep besides, the handler keeps. -/
theorem handler (frame : CommandFrame sys fd rel) (api : StoreApi σ)
    (errors : ∀ srv code text, rel srv (srv.protoOutputError sys fd code text).2)
    (updates : ∀ srv (f : Client → Client), (∀ c, (f c).fd = c.fd) → rel srv (srv.update fd f)) (start : Server σ) :
    HandlerInvariant sys api fd (rel start) fun _ _ => True where
  nest srv _ kept _ _ := frame.trans _ _ _ kept (updates srv _ fun _ => rfl)
  pop srv _ kept _ _ := frame.trans _ _ _ kept (updates srv _ fun _ => rfl)
  take srv _ kept _ := frame.trans _ _ _ kept (updates srv _ fun _ => rfl)
  append srv client m ret srv' kept _ _ _ _ _ _ ran := by
    rcases frame.appendCommand ran with ⟨srv₁, code, text, first, same⟩ | ⟨bufcmds, -, -, -, same⟩
    · have ended : srv' = (srv₁.protoOutputError sys fd code text).2 := congrArg Prod.snd same
      rw [ended]
      exact frame.trans _ _ _ kept (frame.trans _ _ _ first (errors srv₁ code text))
    · cases same
      exact frame.trans _ _ _ kept (frame.trans _ _ _ (frame.malloc srv) (updates _ _ fun _ => rfl))
  execute srv client m kept _ _ _ := by
    rcases frame.switch api client m srv with within | ⟨srv₁, code, text, first, same⟩
    · exact frame.trans _ _ _ kept within
    · rw [same]
      exact frame.trans _ _ _ kept (frame.trans _ _ _ first (errors srv₁ code text))

end CommandFrame

end Infod

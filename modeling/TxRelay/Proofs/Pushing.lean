/-
What a protocol announces, and how often.

A protocol queues what its collection reports as this node's own, and a flush empties the
queue. Nothing else that a protocol does touches the queue, or what is remembered as
sent: answering, asking and taking in leave both alone, and their messages are no
announcements. So what is handed to the transport was let in before through this node's
own interface, and an item that came from peers alone is in no message. What the
transport takes, over all flushes of a run, is as far apart as the memory reaches.

Anything may happen meanwhile to the collection, among its listeners and at the peers. A
task announces while the transport is up or while it is down; a flush on request meets any
pattern of failures. A flush takes the whole queue when it begins, and only flushes, one
after another, look at what is remembered: so what happens while one waits for the transport
may as well happen after it.
-/
import TxRelay.Proofs.Outbox
import TxRelay.Proofs.OwnNews

set_option autoImplicit false

namespace TxRelay

open Outbox (Handing Spells Window took idsAmong)

/-- The announcements among what goes out. -/
def Outgoing.announcements (out : List Outgoing) : List Bytes :=
  out.filterMap fun
    | .announcement message => some message
    | .request _ _ _ _ => none

variable {σ ι ε α : Type} [GossipItem ι] [GossipSet σ ι ε]

/-! ## What leaves the outbox alone -/

namespace Gossiper

variable {g : Gossiper σ ι}

theorem outbox_respond (g : Gossiper σ ι) (env : ε) (lookup : ValidatorLookup) (now deadline : Nat)
    (node : NodeId) (payload : Bytes) :
    (g.respond env lookup now deadline node payload).1.outbox = g.outbox := by
  rw [respond]
  dsimp only
  split
  · rfl
  split
  · rfl
  split
  · rfl
  · rfl

theorem outbox_handleRequest (g : Gossiper σ ι) (env : ε) (lookup : ValidatorLookup) (now deadline : Nat)
    (node : NodeId) (payload : Bytes) :
    (g.handleRequest env lookup now deadline node payload).1.outbox = g.outbox := by
  rw [handleRequest]
  dsimp only
  split
  · next g' b heq =>
    have houtbox := congrArg (fun r => r.1.outbox) heq
    exact houtbox.symm.trans (outbox_respond _ env lookup now deadline node payload)
  · next g' e heq =>
    have houtbox := congrArg (fun r => r.1.outbox) heq
    exact houtbox.symm.trans (outbox_respond _ env lookup now deadline node payload)

theorem outbox_handlePush (g : Gossiper σ ι) (env : ε) (payload : Bytes) :
    (g.handlePush env payload).outbox = g.outbox := by
  rw [handlePush]
  split
  · rfl
  · rfl

theorem outbox_handleEnding (g : Gossiper σ ι) (env : ε) (result : Except GossipError Bytes) :
    (g.handleEnding env result).1.outbox = g.outbox := by
  rw [handleEnding.eq_def]
  split
  · rfl
  · rfl
  · split
    · rfl
    · rfl

omit [GossipItem ι] in
theorem outbox_inquire (g : Gossiper σ ι) (env : ε) (peers : List NodeId) :
    (g.inquire env peers).1.outbox = g.outbox := by
  rw [inquire]
  split
  · rfl
  · dsimp only
    split
    · rfl
    · rfl

omit [GossipItem ι] in
theorem outbox_beginPull (g : Gossiper σ ι) (env : ε) (lookup : ValidatorLookup) (self : NodeId) (now : Nat)
    (draw : List NodeId → List NodeId) (peers : List NodeId) :
    (g.beginPull env lookup self now draw peers).1.outbox = g.outbox := by
  rw [beginPull]
  split
  · rfl
  split
  · rfl
  dsimp only
  split
  · rfl
  split
  · rfl
  · exact outbox_inquire _ env _

end Gossiper

namespace Service

open Outgoing (announcements)

variable {s : Service σ ι}

omit [GossipItem ι] [GossipSet σ ι ε] in
theorem outbox_countRefusal (g : Gossiper σ ι) (e : GossipError) :
    (g.countRefusal e).outbox = g.outbox := by
  cases e <;> rfl

omit [GossipItem ι] in
/-- Asking a peer is no announcement. -/
theorem ask_silent (w : Surroundings) (message : Bytes) (g : Gossiper σ ι) (n : Network) (peers : List NodeId) :
    (ask w message g n peers).1.outbox = g.outbox ∧ announcements (ask w message g n peers).2.2.2 = [] := by
  induction peers generalizing g n with
  | nil => exact ⟨rfl, rfl⟩
  | cons peer rest ih =>
    rw [ask]
    dsimp only
    split
    · exact ih g _
    · next e _ =>
      obtain ⟨houtbox, hsilent⟩ := ih (g.countRefusal e)
        ((n.request peer (w.now + g.settings.requestTimeout)).1.giveUp
          (n.request peer (w.now + g.settings.requestTimeout)).2)
      exact ⟨houtbox.trans (outbox_countRefusal g e), hsilent⟩

theorem beginCycle_silent (s : Service σ ι) (env : ε) (w : Surroundings) (n : Network) :
    (s.beginCycle env w n).1.gossiper.outbox = s.gossiper.outbox ∧
      announcements (s.beginCycle env w n).2.2.2 = [] := by
  have hbegin := s.gossiper.outbox_beginPull env w.lookup n.self w.clock w.draw n.peers.toList
  rw [beginCycle]
  generalize s.gossiper.beginPull env w.lookup n.self w.clock w.draw n.peers.toList = begun at hbegin ⊢
  obtain ⟨gossiper, r⟩ := begun
  cases r with
  | error e => exact ⟨hbegin, rfl⟩
  | ok inquiry =>
    obtain ⟨houtbox, hout⟩ := ask_silent w ((GossipItem.protocol ι).tag inquiry.payload) gossiper n inquiry.peers
    exact ⟨houtbox.trans hbegin, hout⟩

theorem outbox_conclude (env : ε) (gc : Gossiper σ ι × Cycle) (ended : List Ending) :
    (ended.foldl (conclude env) gc).1.outbox = gc.1.outbox := by
  induction ended generalizing gc with
  | nil => rfl
  | cons e rest ih => exact (ih _).trans (gc.1.outbox_handleEnding env e.2)

theorem outbox_look (s : Service σ ι) (env : ε) (now : Nat) (n : Network) (c : Cycle) :
    (s.look env now n c).1.gossiper.outbox = s.gossiper.outbox :=
  outbox_conclude env (s.gossiper, c) _

theorem outbox_lookAtAsked (s : Service σ ι) (env : ε) (now : Nat) (n : Network) :
    (s.lookAtAsked env now n).1.gossiper.outbox = s.gossiper.outbox := by
  rw [lookAtAsked]
  split
  · rfl
  · exact s.outbox_look env now n _

theorem outbox_lookAtOwn (s : Service σ ι) (env : ε) (now : Nat) (n : Network) :
    (s.lookAtOwn env now n).1.gossiper.outbox = s.gossiper.outbox := by
  rw [lookAtOwn]
  split
  · rfl
  · exact s.outbox_look env now n _

/-- However many cycles begin in a row, none of them announces anything. -/
theorem askWhileDue_go_silent (env : ε) (w : Surroundings) (due : Nat) (s : Service σ ι) (n : Network)
    (out : List Outgoing) (hout : announcements out = []) :
    (askWhileDue.go env w due s n out).1.gossiper.outbox = s.gossiper.outbox ∧
      announcements (askWhileDue.go env w due s n out).2.2 = [] := by
  -- The induction is on the turns of the loop; each begins a cycle and looks at it once.
  fun_induction askWhileDue.go env w due s n out with
  | case1 due s n out hstop => exact ⟨rfl, hout⟩
  | case2 due s n out hgo next s' n' cycle more hbegin s'' n'' hlook ih =>
    obtain ⟨hbegun, hmore⟩ := s.beginCycle_silent env w n
    rw [hbegin] at hbegun hmore
    have hlooked := outbox_lookAtOwn ({ s' with own := some cycle } : Service σ ι) env w.now n'
    rw [hlook] at hlooked
    have hall : announcements (out ++ more) = [] := by
      rw [announcements, List.filterMap_append, ← announcements, ← announcements, hout, hmore]
      rfl
    obtain ⟨houtbox, hannounced⟩ := ih hall
    exact ⟨houtbox.trans (hlooked.trans hbegun), hannounced⟩

theorem asker_silent (s : Service σ ι) (env : ε) (w : Surroundings) (n : Network) :
    (s.turn env w n .asker).1.gossiper.outbox = s.gossiper.outbox ∧
      announcements (s.turn env w n .asker).2.2.1 = [] := by
  have hlook := s.outbox_lookAtOwn env w.now n
  rw [turn]
  split
  · generalize s.lookAtOwn env w.now n = looked at hlook ⊢
    obtain ⟨s', n'⟩ := looked
    dsimp only
    split
    · exact ⟨hlook, rfl⟩
    · obtain ⟨houtbox, hannounced⟩ := askWhileDue_go_silent env w s'.pullAt s' n' [] rfl
      exact ⟨houtbox.trans hlook, hannounced⟩
  · exact ⟨rfl, rfl⟩

/-! ## Moves -/

/-- Something that happens around a protocol, or that it does (`GossipCoordinator`). -/
inductive Move (α ε : Type) where
  /-- Something happens to the collection. -/
  | operate (a : α)
  /-- Somebody listens to the collection's bus. -/
  | listen (l : Bus.Listening)
  | start (now : Nat)
  /-- Somebody asks for a flush; the transport's answer to each message is given by its
  number. -/
  | flush (answers : Nat → Except GossipError Unit)
  /-- A task has its turn. -/
  | turn (env : ε) (w : Surroundings) (n : Network) (t : Task)
  /-- A peer asks. -/
  | request (env : ε) (lookup : ValidatorLookup) (now deadline : Nat) (node : NodeId) (payload : Bytes)
  /-- A peer announces. -/
  | receive (env : ε) (payload : Bytes)
  /-- Somebody asks for a cycle. -/
  | pull (env : ε) (w : Surroundings) (n : Network)
  | lookAtAsked (env : ε) (now : Nat) (n : Network)
  | note (endings : List Ending)
  | collect
  | shutdown (n : Network)

/-- The protocol after a move. -/
def step (src : Source σ ι ε α) (s : Service σ ι) : Move α ε → Service σ ι
  | .operate a => { s with gossiper := { s.gossiper with set := src.act s.gossiper.set a } }
  | .listen l =>
    let bus := (src.bus s.gossiper.set).act l.action
    { s with gossiper := { s.gossiper with set := src.onBus s.gossiper.set bus } }
  | .start now => s.start now
  | .flush answers => { s with gossiper := (s.gossiper.push answers).1 }
  | .turn env w n t => (s.turn env w n t).1
  | .request env lookup now deadline node payload =>
    { s with gossiper := (s.gossiper.handleRequest env lookup now deadline node payload).1 }
  | .receive env payload => { s with gossiper := s.gossiper.handlePush env payload }
  | .pull env w n => (s.pull env w n).1
  | .lookAtAsked env now n => (s.lookAtAsked env now n).1
  | .note endings => s.note endings
  | .collect => s.collect.1
  | .shutdown n => (s.shutdown n).1

/-- The protocol after several moves. -/
def run (src : Source σ ι ε α) (s : Service σ ι) (moves : List (Move α ε)) : Service σ ι :=
  moves.foldl (step src) s

/-- What a move lets in through this node's own interface. -/
def ownedBy (src : Source σ ι ε α) (s : Service σ ι) : Move α ε → List ι
  | .operate a => src.own s.gossiper.set a
  | _ => []

/-- What several moves let in through this node's own interface, in order. -/
def ownedIn (src : Source σ ι ε α) : Service σ ι → List (Move α ε) → List ι
  | _, [] => []
  | s, m :: rest => s.ownedBy src m ++ ownedIn src (s.step src m) rest

/-- The announcements of a move that the transport takes. -/
def given (s : Service σ ι) : Move α ε → List Bytes
  | .flush answers => (s.gossiper.push answers).2.1
  | .turn env w n t => announcements (s.turn env w n t).2.2.1
  | .pull env w n => announcements (s.pull env w n).2.2
  | _ => []

/-- The transport's answers to the flush that a move makes, if it makes one. -/
def answers? (s : Service σ ι) : Move α ε → Option (Nat → Except GossipError Unit)
  | .flush answers => some answers
  | .turn _ w _ .announcer => if s.isRunning && s.pushAt ≤ w.now then some fun _ => w.link else none
  | _ => none

/-- What a move hands to the transport, whether it is taken or not. -/
def handedBy (s : Service σ ι) (m : Move α ε) : List Handing :=
  match s.answers? m with
  | some answers => s.gossiper.outbox.handings s.gossiper.settings.targetBytes answers
  | none => []

/-- What several moves hand to the transport, in order. -/
def handedIn (src : Source σ ι ε α) : Service σ ι → List (Move α ε) → List Handing
  | _, [] => []
  | s, m :: rest => s.handedBy m ++ handedIn src (s.step src m) rest

/-! ## What a move does -/

/-- **What becomes of an outbox** in a move. -/
inductive Handled (s : Service σ ι) (m : Move α ε) (after : Outbox ι) : Prop where
  | flushed (answers : Nat → Except GossipError Unit) (hanswers : s.answers? m = some answers)
      (hafter : after = (s.gossiper.outbox.flush s.gossiper.settings.targetBytes answers).1)
  | fed (id : Nat) (hanswers : s.answers? m = none)
      (hafter : after = s.gossiper.outbox.add
        ((GossipSet.drain s.gossiper.set id).2.flatMap GossipItem.acceptedLocally))
  | alone (hanswers : s.answers? m = none) (hafter : after = s.gossiper.outbox)

section
variable {env : ε} {w : Surroundings} {n : Network}

/-- The announcer flushes the outbox when it is time. -/
theorem announcer_of_due (hdue : (s.isRunning && s.pushAt ≤ w.now) = true) :
    (s.turn env w n .announcer).1.gossiper.outbox
        = (s.gossiper.outbox.flush s.gossiper.settings.targetBytes fun _ => w.link).1 ∧
      announcements (s.turn env w n .announcer).2.2.1 = (s.gossiper.push fun _ => w.link).2.1 := by
  obtain ⟨hrunning, htime⟩ := Bool.and_eq_true_iff.mp hdue
  rw [turn, if_pos hrunning]
  dsimp only
  rw [pushIfDue, if_pos (of_decide_eq_true htime)]
  refine ⟨rfl, ?_⟩
  show announcements ((s.gossiper.push fun _ => w.link).2.1.map .announcement) = _
  rw [announcements, List.filterMap_map]
  exact List.filterMap_some

theorem announcer_of_not_due (hdue : ¬(s.isRunning && s.pushAt ≤ w.now) = true) :
    (s.turn env w n .announcer).1.gossiper.outbox = s.gossiper.outbox ∧
      announcements (s.turn env w n .announcer).2.2.1 = [] := by
  rw [turn]
  split
  · next hrunning =>
    have htime : ¬s.pushAt ≤ w.now := fun h => hdue (by rw [hrunning, decide_eq_true h]; rfl)
    dsimp only
    rw [pushIfDue, if_neg htime]
    exact ⟨rfl, rfl⟩
  · exact ⟨rfl, rfl⟩

/-- The feeder queues what it reads. -/
theorem outbox_gather (s : Service σ ι) :
    s.gather.gossiper.outbox = s.gossiper.outbox ∨
      ∃ id, s.gather.gossiper.outbox = s.gossiper.outbox.add
        ((GossipSet.drain s.gossiper.set id).2.flatMap GossipItem.acceptedLocally) := by
  rw [gather]
  split
  · exact Or.inl rfl
  · next id _ => exact Or.inr ⟨id, rfl⟩

end

/-- **A move leaves the outbox alone**, or flushes it, or queues what is read on the bus. -/
theorem handled_step (src : Source σ ι ε α) (s : Service σ ι) (m : Move α ε) :
    Handled s m (s.step src m).gossiper.outbox := by
  cases m with
  | operate a => exact .alone rfl rfl
  | listen l => exact .alone rfl rfl
  | start now =>
    refine .alone rfl ?_
    rw [step, start]
    split
    · rfl
    · rfl
  | flush answers => exact .flushed answers rfl rfl
  | turn env w n t =>
    cases t with
    | feeder =>
      rw [step, turn]
      split
      · rcases s.outbox_gather with hsame | ⟨id, hfed⟩
        · exact .alone rfl hsame
        · exact .fed id rfl hfed
      · exact .alone rfl rfl
    | announcer =>
      by_cases hdue : (s.isRunning && s.pushAt ≤ w.now) = true
      · exact .flushed (fun _ => w.link) (if_pos hdue) (announcer_of_due hdue).1
      · exact .alone (if_neg hdue) (announcer_of_not_due hdue).1
    | asker => exact .alone rfl (s.asker_silent env w n).1
  | request env lookup now deadline node payload =>
    exact .alone rfl (s.gossiper.outbox_handleRequest env lookup now deadline node payload)
  | receive env payload => exact .alone rfl (s.gossiper.outbox_handlePush env payload)
  | pull env w n => exact .alone rfl (s.beginCycle_silent env w n).1
  | lookAtAsked env now n => exact .alone rfl (s.outbox_lookAtAsked env now n)
  | note endings => exact .alone rfl rfl
  | collect => exact .alone rfl rfl
  | shutdown n => exact .alone rfl rfl

/-- **What a move gives out** is what the transport takes of what it is handed. -/
theorem given_eq (s : Service σ ι) (m : Move α ε) :
    s.given m = (took (s.handedBy m)).map Handing.message := by
  have hpush : ∀ answers, (s.gossiper.push answers).2.1
      = (took (s.gossiper.outbox.handings s.gossiper.settings.targetBytes answers)).map Handing.message :=
    fun answers => (s.gossiper.outbox.flush_spec s.gossiper.settings.targetBytes answers).1
  cases m with
  | flush answers => exact hpush answers
  | turn env w n t =>
    cases t with
    | feeder =>
      rw [given, turn]
      split
      · rfl
      · rfl
    | announcer =>
      by_cases hdue : (s.isRunning && s.pushAt ≤ w.now) = true
      · rw [given, (announcer_of_due hdue).2, hpush, handedBy, answers?, if_pos hdue]
      · rw [given, (announcer_of_not_due hdue).2, handedBy, answers?, if_neg hdue]
        rfl
    | asker => exact (s.asker_silent env w n).2
  | pull env w n => exact (s.beginCycle_silent env w n).2
  | _ => rfl

/-! ## What holds at every moment -/

/-- **A protocol deals honestly** with a collection: what the bus reports as this node's own,
and what is queued, are such items, and the outbox remembers what was sent. -/
structure Honest (src : Source σ ι ε α) (A : ι → Prop) (c : Nat) (latest : List Digest)
    (s : Service σ ι) : Prop where
  names : (src.bus s.gossiper.set).NamesOnly A
  queued : ∀ x ∈ s.gossiper.outbox.queued, A x
  window : Window c s.gossiper.outbox.sent latest

section
variable {src : Source σ ι ε α} {A : ι → Prop} {c : Nat} {latest : List Digest}

/-- Nothing that happens makes the bus report anything else, if what is let in as this node's own
is such an item. -/
theorem names_step (h : (src.bus s.gossiper.set).NamesOnly A) (m : Move α ε)
    (hown : ∀ x ∈ s.ownedBy src m, A x) : (src.bus (s.step src m).gossiper.set).NamesOnly A := by
  cases m with
  | operate a => exact src.names_act a h hown
  | listen l =>
    show (src.bus (src.onBus _ _)).NamesOnly A
    rw [src.bus_onBus]
    exact h.listen l
  | start now =>
    show (src.bus (s.start now).gossiper.set).NamesOnly A
    rw [start]
    split
    · exact h
    · exact h.of_recent (src.recent_subscribe _)
  | flush answers => exact h
  | turn env w n t => exact keeps_turn (src.keeps A env) h w n t
  | request env lookup now deadline node payload =>
    show (src.bus (s.gossiper.handleRequest env lookup now deadline node payload).1.set).NamesOnly A
    rw [Gossiper.set_handleRequest]
    exact h
  | receive env payload => exact Gossiper.keeps_handlePush (src.keeps A env) h payload
  | pull env w n => exact keeps_pull (src.keeps A env) h w n
  | lookAtAsked env now n => exact keeps_lookAtAsked (src.keeps A env) h now n
  | note endings => exact h
  | collect => exact h
  | shutdown n => exact h

namespace Honest

theorem step (h : Honest src A c latest s) (m : Move α ε) (hown : ∀ x ∈ s.ownedBy src m, A x) :
    Honest src A c ((idsAmong (took (s.handedBy m))).reverse ++ latest) (s.step src m) := by
  have hnames := names_step h.names m hown
  cases s.handled_step src m with
  | flushed answers hanswers hafter =>
    refine ⟨hnames, ?_, ?_⟩
    · rw [hafter]
      exact fun x hx => absurd hx List.not_mem_nil
    · rw [hafter, handedBy, hanswers]
      exact h.window.flush
  | fed id hanswers hafter =>
    refine ⟨hnames, ?_, ?_⟩
    · rw [hafter]
      intro x hx
      rcases List.mem_append.mp hx with hold | hnew
      · exact h.queued x hold
      · obtain ⟨e, he, hx⟩ := List.mem_flatMap.mp hnew
        exact h.names e (src.drained _ id e he) x hx
    · rw [hafter, handedBy, hanswers]
      exact h.window
  | alone hanswers hafter =>
    refine ⟨hnames, ?_, ?_⟩
    · rw [hafter]
      exact h.queued
    · rw [hafter, handedBy, hanswers]
      exact h.window

theorem run (h : Honest src A c latest s) (moves : List (Move α ε))
    (hown : ∀ x ∈ s.ownedIn src moves, A x) :
    Honest src A c ((idsAmong (took (s.handedIn src moves))).reverse ++ latest) (s.run src moves) := by
  induction moves generalizing s latest with
  | nil => exact h
  | cons m rest ih =>
    have hrest := ih (h.step m fun x hx => hown x (List.mem_append_left _ hx))
      fun x hx => hown x (List.mem_append_right _ hx)
    have hids : idsAmong (took (s.handedIn src (m :: rest)))
        = idsAmong (took (s.handedBy m)) ++ idsAmong (took ((s.step src m).handedIn src rest)) := by
      rw [handedIn, took, List.filter_append, idsAmong, List.flatMap_append]
      rfl
    rw [hids, List.reverse_append, List.append_assoc]
    exact hrest

/-- **What a move hands over** spells such items. -/
theorem spells [Wire.LawfulLayout ι] (h : Honest src A c latest s) {m : Move α ε} {hd : Handing}
    (hhd : hd ∈ s.handedBy m) :
    ∃ xs : List ι, Spells hd.message xs ∧ xs.map GossipItem.gossipId = hd.parcels.map Parcel.id ∧
      ∀ x ∈ xs, A x := by
  rw [handedBy] at hhd
  cases hanswers : s.answers? m with
  | none =>
    rw [hanswers] at hhd
    cases hhd
  | some answers =>
    rw [hanswers] at hhd
    obtain ⟨xs, hspells, hids, hqueued⟩ := Outbox.spells_of_mem_handings hhd
    exact ⟨xs, hspells, hids, fun x hx => h.queued x (hqueued x hx)⟩

end Honest

end

/-- A protocol that has done nothing yet is honest about what is on the bus. -/
theorem honest_new (src : Source σ ι ε α) (gossip : GossipSettings) {set : σ}
    (hbus : (src.bus set).recent = []) (A : ι → Prop) :
    Honest src A (max 1 gossip.pushedMemory) [] (Service.new gossip set) where
  names := by
    intro e he
    have hnothing : e ∈ (src.bus set).recent := he
    rw [hbus] at hnothing
    cases hnothing
  queued x hx := absurd hx List.not_mem_nil
  window := Outbox.window_new gossip.pushedMemory

/-! ## Whole runs -/

section
variable {src : Source σ ι ε α} {moves moves' : List (Move α ε)}

theorem ownedIn_append (src : Source σ ι ε α) (s : Service σ ι) (moves moves' : List (Move α ε)) :
    s.ownedIn src (moves ++ moves') = s.ownedIn src moves ++ (s.run src moves).ownedIn src moves' := by
  induction moves generalizing s with
  | nil => rfl
  | cons m rest ih =>
    rw [List.cons_append, ownedIn, ownedIn, ih, List.append_assoc]
    rfl

/-- What several moves hand over, one of them does. -/
theorem exists_of_mem_handedIn {hd : Handing} (hhd : hd ∈ s.handedIn src moves) :
    ∃ before m after, moves = before ++ m :: after ∧ hd ∈ (s.run src before).handedBy m := by
  induction moves generalizing s with
  | nil => cases hhd
  | cons m rest ih =>
    rcases List.mem_append.mp hhd with hfirst | hlater
    · exact ⟨[], m, rest, rfl, hfirst⟩
    · obtain ⟨before, m', after, hsplit, hlater⟩ := ih hlater
      exact ⟨m :: before, m', after, congrArg (m :: ·) hsplit, hlater⟩

end

/-- **A protocol pushes its node's own items, and none of them too often**, whatever happens
(`PushGossiper`). -/
structure PushesOwn (src : Source σ ι ε α) (memory : Nat) (s : Service σ ι) : Prop where
  /-- Each message that is handed to the transport, taken or not, spells items that were let in
  before through this node's own interface; it is by their ids that they are remembered. -/
  own : ∀ (before : List (Move α ε)) (m : Move α ε), ∀ hd ∈ (s.run src before).handedBy m,
    ∃ xs : List ι, Spells hd.message xs ∧ xs.map GossipItem.gossipId = hd.parcels.map Parcel.id ∧
      ∀ x ∈ xs, x ∈ s.ownedIn src before
  /-- An item that is never let in so is in no message. -/
  never : ∀ (moves : List (Move α ε)) (x : ι), x ∉ s.ownedIn src moves →
    ∀ hd ∈ s.handedIn src moves, ∀ xs : List ι, Spells hd.message xs → x ∉ xs
  /-- What goes out are the messages that the transport takes. -/
  given : ∀ (before : List (Move α ε)) (m : Move α ε),
    (s.run src before).given m = (took ((s.run src before).handedBy m)).map Handing.message
  /-- Between two deliveries of an id as many others are delivered as are remembered. -/
  apart : ∀ (moves : List (Move α ε)) (earlier mid later : List Digest) (id : Digest),
    idsAmong (took (s.handedIn src moves)) = earlier ++ id :: (mid ++ id :: later) →
      ∃ others : List Digest, others.Nodup ∧ id ∉ others ∧ (∀ other ∈ others, other ∈ mid) ∧
        others.length = max 1 memory

theorem pushesOwn_of_honest [Wire.LawfulLayout ι] {src : Source σ ι ε α} {memory : Nat}
    (h : ∀ A : ι → Prop, Honest src A (max 1 memory) [] s) : PushesOwn src memory s := by
  have hown : ∀ (before : List (Move α ε)) (m : Move α ε), ∀ hd ∈ (s.run src before).handedBy m,
      ∃ xs : List ι, Spells hd.message xs ∧ xs.map GossipItem.gossipId = hd.parcels.map Parcel.id ∧
        ∀ x ∈ xs, x ∈ s.ownedIn src before :=
    fun before m hd hhd => ((h fun x => x ∈ s.ownedIn src before).run before fun _ hx => hx).spells hhd
  refine ⟨hown, fun moves x hx hd hhd xs hspells hmem => ?_, fun before m => given_eq _ m,
    fun moves earlier mid later id hids => ?_⟩
  · obtain ⟨before, m, after, rfl, hhanded⟩ := exists_of_mem_handedIn hhd
    obtain ⟨ys, hys, _, howned⟩ := hown before m hd hhanded
    rw [hspells.unique hys] at howned
    refine hx ?_
    rw [ownedIn_append]
    exact List.mem_append_left _ (howned x hmem)
  · have hspaced := ((h fun _ => True).run moves fun _ _ => trivial).window.spaced
    have hlatest : (idsAmong (took (s.handedIn src moves))).reverse ++ []
        = later.reverse ++ id :: (mid.reverse ++ id :: earlier.reverse) := by
      simp [hids]
    rw [hlatest] at hspaced
    obtain ⟨others, hnodup, hother, hmid, hlength⟩ := hspaced.exists_between
    exact ⟨others, hnodup, hother, fun y hy => List.mem_reverse.mp (hmid y hy), hlength⟩

/-- **Only a node's own items are pushed, and each once in a while**: by the protocol of a pool
of nonce-ordered sub-pools and by that of a transfer pool, over every run from the start of
the pool. -/
theorem pushes_own_items (gossip : GossipSettings) :
    (∀ (head : Header) (specs : List (String × NonceLimits × (Transaction → Bool)))
        (filter : Bloom.RollingFilter) (subscription : Nat),
      ∃ c₀ : Coordinator NoncePool, Coordinator.start head (Coordinator.freshPools specs) = .running c₀ ∧
        PushesOwn PoolSet.source gossip.pushedMemory
          (Service.new gossip (⟨c₀, filter, subscription⟩ : PoolSet))) ∧
      ∀ (settings : MempoolSettings) (store : TransferStore),
        PushesOwn Mempool.source gossip.pushedMemory
          (Service.new gossip (⟨settings, store, Bus.new Bus.standardCapacity⟩ : Mempool)) := by
  refine ⟨fun head specs filter subscription => ?_, fun settings store => ?_⟩
  · obtain ⟨c₀, hstart, _⟩ := Coordinator.start_freshPools head specs
    refine ⟨c₀, hstart, pushesOwn_of_honest (honest_new PoolSet.source gossip ?_)⟩
    show c₀.commons.bus.recent = []
    rw [(Coordinator.start_fresh hstart).1]
    rfl
  · exact pushesOwn_of_honest (honest_new Mempool.source gossip rfl)

end Service

end TxRelay

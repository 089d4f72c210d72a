/-
What a bus reports as this node's own.

An announcement says whether what it names came in through this node's own interface.
The pools say so of what was offered that way and let in, and of nothing else: a batch is
announced by what its outcomes let in, a transfer alone, a reset by its head, and the rest
of what happens to a pool is not announced at all. Items of peers are offered as such.
Listening moves whoever listens, and reading gives what is kept; so an item that nobody
has let in as this node's own is never read as its own.
-/
import TxRelay.Gossip.PoolSet
import TxRelay.Gossip.TransferSet
import TxRelay.Proofs.Announcing
import TxRelay.Proofs.Gossip
import TxRelay.Proofs.Mempool
import TxRelay.Proofs.PoolHistory

set_option autoImplicit false

namespace TxRelay

/-! ## What is kept -/

namespace Bus

/-- What somebody does who listens to a bus. -/
inductive Listening where
  | subscribe (topics : List Topic)
  | read (id : Nat)
  | drop (id : Nat)

/-- What that does to the bus. -/
def Listening.action : Listening → Action
  | .subscribe topics => .subscribe topics
  | .read id => .read id
  | .drop id => .drop id

theorem recent_read (b : Bus) (id : Nat) : (b.read id).1.recent = b.recent := by
  rcases b.read_eq_or_moved id with hread | ⟨s, position, hread⟩
  · rw [hread]
  · rw [hread]
    rfl

/-- Reading to the end leaves what is kept alone, and gives some of it. -/
theorem recent_drain (b : Bus) (id : Nat) :
    (b.drain id).1.recent = b.recent ∧ ∀ e ∈ (b.drain id).2.1, e ∈ b.recent := by
  cases hs : b.subscribers[id]? with
  | none =>
    have hdrain : b.drain id = (b, [], .ended) := by rw [drain, drainFor, read, hs]
    rw [hdrain]
    exact ⟨rfl, fun e he => absurd he List.not_mem_nil⟩
  | some s =>
    rw [drain_eq hs]
    refine ⟨rfl, fun e he => ?_⟩
    have hdue : e ∈ b.due s := (List.mem_filter.mp he).1
    rw [due, since, List.mem_reverse] at hdue
    exact List.mem_of_mem_take hdue

section
variable {ι : Type} [GossipItem ι] {A : ι → Prop} {b b' : Bus} {e : Event}

/-- **Only such items** are reported as this node's own by what is kept. -/
def NamesOnly (A : ι → Prop) (b : Bus) : Prop :=
  ∀ e ∈ b.recent, ∀ x ∈ GossipItem.acceptedLocally e, A x

namespace NamesOnly

theorem of_recent (h : b.NamesOnly A) (hrecent : b'.recent = b.recent) : b'.NamesOnly A := by
  rw [NamesOnly, hrecent]
  exact h

theorem publish (h : b.NamesOnly A) (he : ∀ x ∈ GossipItem.acceptedLocally e, A x) :
    (b.publish e).1.NamesOnly A := by
  cases hclosed : b.closed with
  | true =>
    rw [publish_of_closed hclosed]
    exact h
  | false =>
    rw [publish_of_open hclosed]
    intro e' he' x hx
    rcases List.mem_cons.mp (List.mem_of_mem_take he') with rfl | hold
    · exact he x hx
    · exact h e' hold x hx

/-- Only publishing adds to what is kept. -/
theorem act (h : b.NamesOnly A) {a : Action}
    (hsaid : ∀ e, a = .publish e → ∀ x ∈ GossipItem.acceptedLocally e, A x) : (b.act a).NamesOnly A := by
  cases a with
  | publish e => exact h.publish (hsaid e rfl)
  | subscribe topics => exact h
  | read id => exact h.of_recent (b.recent_read id)
  | drop id => exact h
  | close => exact h

theorem run (h : b.NamesOnly A) {history : List Action}
    (hsaid : ∀ e, .publish e ∈ history → ∀ x ∈ GossipItem.acceptedLocally e, A x) :
    (b.run history).NamesOnly A := by
  induction history generalizing b with
  | nil => exact h
  | cons a rest ih =>
    refine ih (h.act ?_) fun e he => hsaid e (List.mem_cons_of_mem a he)
    rintro e rfl
    exact hsaid e List.mem_cons_self

theorem listen (h : b.NamesOnly A) (l : Listening) : (b.act l.action).NamesOnly A := by
  refine h.act fun e he => ?_
  cases l with
  | subscribe topics => cases he
  | read id => cases he
  | drop id => cases he

end NamesOnly

end

end Bus

open Bus (NamesOnly)

/-! ## Sources -/

/-- **A collection that announces on a bus of its own** what is let in (`GossipSet`). What is
reported there as this node's own is what acts let in as such; gossip reports nothing so. -/
structure Source (σ ι ε α : Type) [GossipItem ι] [GossipSet σ ι ε] where
  bus : σ → Bus
  onBus : σ → Bus → σ
  act : σ → α → σ
  /-- What an act lets in through this node's own interface. -/
  own : σ → α → List ι
  bus_onBus : ∀ s b, bus (onBus s b) = b
  names_act : ∀ {A : ι → Prop} {s} a, (bus s).NamesOnly A → (∀ x ∈ own s a, A x) →
    (bus (act s a)).NamesOnly A
  names_add : ∀ {A : ι → Prop} {s} env x, (bus s).NamesOnly A →
    (bus (GossipSet.add s env x).1).NamesOnly A
  recent_filter : ∀ s env, (bus (GossipSet.filter s env).1).recent = (bus s).recent
  recent_subscribe : ∀ s, (bus (GossipSet.subscribe s).1).recent = (bus s).recent
  recent_drain : ∀ s id, (bus (GossipSet.drain s id).1).recent = (bus s).recent
  /-- What is read is kept. -/
  drained : ∀ s id, ∀ e ∈ (GossipSet.drain s id).2, e ∈ (bus s).recent

/-- Gossip keeps it so. -/
theorem Source.keeps {σ ι ε α : Type} [GossipItem ι] [GossipSet σ ι ε] (src : Source σ ι ε α)
    (A : ι → Prop) (env : ε) : GossipSet.Keeps (fun s => (src.bus s).NamesOnly A) env where
  add _ x h := src.names_add env x h
  filter s h := h.of_recent (src.recent_filter s env)
  subscribe s h := h.of_recent (src.recent_subscribe s)
  drain s id h := h.of_recent (src.recent_drain s id)

/-! ### Ordinary transactions -/

namespace Coordinator

/-- **An action reports as this node's own** what it lets in as such. -/
theorem namesOnly_act {A : Transaction → Prop} {c : Coordinator NoncePool} (h : c.commons.bus.NamesOnly A)
    (action : Action) (hown : ∀ tx ∈ c.own action, A tx) : (c.act action).commons.bus.NamesOnly A := by
  rw [bus_act]
  refine h.run fun e he tx htx => ?_
  -- Of what is announced only new transactions of this node's own are reported so.
  cases e with
  | transactions txs isLocal =>
    cases isLocal with
    | true => exact hown tx (own_of_heardOf he htx)
    | false => cases htx
  | transfers txs isLocal => cases htx
  | reorg head => cases htx

end Coordinator

namespace PoolSet

variable {A : Transaction → Prop} {s : PoolSet}

theorem recent_drain (s : PoolSet) (id : Nat) :
    (s.drain id).1.bus.recent = s.bus.recent ∧ ∀ e ∈ (s.drain id).2.1, e ∈ s.bus.recent :=
  s.bus.recent_drain id

/-- A filter is fed with what is read. -/
theorem recent_sync (s : PoolSet) (views : Views) : (s.sync views).1.bus.recent = s.bus.recent := by
  have hdrain := (s.recent_drain s.subscription).1
  rw [sync]
  dsimp only
  split
  · exact hdrain
  · exact hdrain

/-- To ask for a filter is to feed it. -/
theorem fst_filter (s : PoolSet) (views : Views) : (GossipSet.filter s views).1 = (s.sync views).1 := by
  simp only [GossipSet.filter]
  split
  · next heq => rw [heq]
  · next heq => rw [heq]

/-- A pool of nonce-ordered sub-pools as a source. -/
def source : Source PoolSet Transaction Views Coordinator.Action where
  bus := bus
  onBus := onBus
  act s action := { s with pool := s.pool.act action }
  own s action := s.pool.own action
  bus_onBus _ _ := rfl
  names_act action h hown := Coordinator.namesOnly_act h action hown
  names_add views tx h :=
    Coordinator.namesOnly_act h (.add views [tx] false false) fun _ htx => absurd htx List.not_mem_nil
  recent_filter s views := by
    rw [fst_filter]
    exact s.recent_sync views
  recent_subscribe _ := rfl
  recent_drain s id := (s.recent_drain id).1
  drained s id := (s.recent_drain id).2

end PoolSet

/-! ### Transfers -/

namespace Mempool

/-- Something that happens to a transfer pool (`Mempool`). -/
inductive Operation where
  | pool (action : Action)
  /-- It is closed. -/
  | close

/-- The pool afterwards. -/
def perform (p : Mempool) : Operation → Mempool
  | .pool action => p.act action
  | .close => p.close

/-- The transfers that come to be let in through this node's own interface. -/
def own (p : Mempool) : Operation → List Transfer
  | .pool (.add b tx true) => if (p.add b tx true).2.isOk then [tx] else []
  | _ => []

section
variable {A : Transfer → Prop} {p : Mempool}

/-- A transfer is announced if it is let in. -/
theorem bus_add (p : Mempool) (b : TransferBackend) (tx : Transfer) (isLocal : Bool) :
    (p.add b tx isLocal).1.bus = p.bus ∨
      ((p.add b tx isLocal).2 = .ok () ∧
        (p.add b tx isLocal).1.bus = (p.bus.publish (.transfers [tx] isLocal)).1) := by
  rw [add]
  dsimp only
  split
  · exact Or.inl rfl
  split
  · exact Or.inl rfl
  split
  · exact Or.inl rfl
  split
  · exact Or.inl rfl
  · exact Or.inr ⟨rfl, rfl⟩

theorem namesOnly_add (h : p.bus.NamesOnly A) (b : TransferBackend) {tx : Transfer} {isLocal : Bool}
    (hown : isLocal = true → (p.add b tx isLocal).2 = .ok () → A tx) :
    (p.add b tx isLocal).1.bus.NamesOnly A := by
  rcases bus_add p b tx isLocal with hbus | ⟨hok, hbus⟩
  · rw [hbus]
    exact h
  · rw [hbus]
    refine h.publish fun x hx => ?_
    cases isLocal with
    | true => exact List.mem_singleton.mp hx ▸ hown rfl hok
    | false => cases hx

theorem namesOnly_perform (h : p.bus.NamesOnly A) (operation : Operation)
    (hown : ∀ tx ∈ p.own operation, A tx) : (p.perform operation).bus.NamesOnly A := by
  cases operation with
  | close => exact h
  | pool action =>
    cases action with
    | add b tx isLocal =>
      refine namesOnly_add h b fun hlocal hok => ?_
      subst hlocal
      refine hown tx ?_
      rw [own, hok]
      exact List.mem_singleton_self tx
    | propose max => exact h
    | confirm ids => exact h
    | rollback ids => exact h
    | discard id reason => exact h

/-- A transfer pool as a source. -/
def source : Source Mempool Transfer TransferBackend Operation where
  bus := bus
  onBus p bus := { p with bus }
  act := perform
  own := own
  bus_onBus _ _ := rfl
  names_act operation h hown := namesOnly_perform h operation hown
  names_add {_ p} b tx h := by
    show (p.takeRemote b tx).1.bus.NamesOnly _
    rw [fst_takeRemote]
    exact namesOnly_add h b fun hlocal => absurd hlocal Bool.false_ne_true
  recent_filter _ _ := rfl
  recent_subscribe _ := rfl
  recent_drain p id := (p.bus.recent_drain id).1
  drained p id := (p.bus.recent_drain id).2

end

end Mempool

end TxRelay

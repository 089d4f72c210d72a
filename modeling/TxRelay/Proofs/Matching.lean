/-
Requests and answers are matched.

A call ends at most once. What it gets was answered to it by the node that it
asked, while nothing had been said of its request yet; everybody else is ignored,
as are those who come late or twice. What a call was once told stays, whatever
comes after it.
-/
import Mathlib.Data.List.Forall2
import TxRelay.Proofs.Correspondence

set_option autoImplicit false

namespace TxRelay.Correspondence

/-! ## How calls end -/

/-- A call has ended. -/
def EndedWith (c : Correspondence) (k : Nat) (r : Except GossipError Bytes) : Prop :=
  ∃ call : Call, c.calls[k]? = some call ∧ call.stage = .ended r

section
variable {c : Correspondence} {k : Nat} {moves : List Move} {r : Except GossipError Bytes}

theorem Stage.result?_eq_some {s : Stage} : s.result? = some r ↔ s = .ended r := by
  cases s with
  | running sending told => simp [result?]
  | ended r' => simp [result?]
  | dropped => simp [result?]

/-- Telling ends no call. -/
theorem endedWith_hear (c : Correspondence) (news : Network × List Ending) :
    (c.hear news).EndedWith k r ↔ c.EndedWith k r := by
  have hstage : ∀ call : Call, (call.hear news.2).stage = .ended r ↔ call.stage = .ended r := by
    intro call
    unfold Call.hear
    split
    · next hid hstage => simp [hstage]
    · rfl
  unfold EndedWith hear
  simp only [List.getElem?_map, Option.map_eq_some_iff]
  constructor
  · rintro ⟨_, ⟨call, hk, rfl⟩, hended⟩
    exact ⟨call, hk, (hstage call).mp hended⟩
  · rintro ⟨call, hk, hended⟩
    exact ⟨_, ⟨call, hk, rfl⟩, (hstage call).mpr hended⟩

theorem endedWith_append (c : Correspondence) (n : Network) (new : Call) :
    EndedWith ⟨n, c.calls ++ [new]⟩ k r ↔ c.EndedWith k r ∨ k = c.calls.length ∧ new.stage = .ended r := by
  unfold EndedWith
  simp only [getElem?_append_singleton]
  constructor
  · rintro ⟨call, hk | ⟨hk, rfl⟩, hended⟩
    · exact Or.inl ⟨call, hk, hended⟩
    · exact Or.inr ⟨hk, hended⟩
  · rintro (⟨call, hk, hended⟩ | ⟨hk, hended⟩)
    · exact ⟨call, Or.inl hk, hended⟩
    · exact ⟨new, Or.inr ⟨hk, rfl⟩, hended⟩

theorem endedWith_happen {k' : Nat} {call : Call} (hk' : c.calls[k']? = some call)
    (hrunning : call.stage.isRunning = true) (h : Happening) :
    (c.happen k' call h).EndedWith k r ↔
      c.EndedWith k r ∨ k' = k ∧ call.stage.after call.node h = .ended r := by
  have hlt : k' < c.calls.length := (List.getElem?_eq_some_iff.mp hk').1
  unfold EndedWith happen
  dsimp only
  rw [List.getElem?_set, if_pos hlt]
  by_cases hsame : k' = k
  · subst hsame
    have hnot : call.stage ≠ .ended r := by
      intro hended
      rw [hended] at hrunning
      cases hrunning
    rw [if_pos rfl, hk']
    simp [hnot]
  · rw [if_neg hsame]
    simp [hsame]

/-- Calls end when it is said that they do. -/
theorem endedWith_step (c : Correspondence) (m : Move) :
    (c.step m).EndedWith k r ↔ c.EndedWith k r ∨ c.ending? m = some (k, r) := by
  cases m with
  | begin node deadline cancelled =>
    cases cancelled with
    | true =>
      refine (endedWith_append c _ _).trans (or_congr_right ?_)
      simp [ending?, eq_comm]
    | false =>
      refine (endedWith_append c _ _).trans (or_congr_right ?_)
      simp [ending?]
  | call k' h =>
    unfold step ending?
    dsimp only
    cases hk' : c.calls[k']? with
    | none => simp
    | some call =>
      dsimp only
      by_cases hrunning : call.stage.isRunning = true
      · rw [if_pos hrunning, endedWith_happen hk' hrunning, Option.map_eq_some_iff]
        simp [Stage.result?_eq_some, and_comm]
      · rw [if_neg hrunning, happen_of_not_running hk' (Bool.eq_false_iff.mpr hrunning)]
        simp
  | answer node id payload =>
    refine (endedWith_hear c _).trans ?_
    simp [ending?]
  | refuse node id reason =>
    refine (endedWith_hear c _).trans ?_
    simp [ending?]
  | disconnect node =>
    refine (endedWith_hear c _).trans ?_
    simp [ending?]

/-- A call that ends has not ended before. -/
theorem not_endedWith_of_ending? {m : Move} (h : c.ending? m = some (k, r)) (r' : Except GossipError Bytes) :
    ¬ c.EndedWith k r' := by
  rintro ⟨call, hk, hended⟩
  cases m with
  | begin node deadline cancelled =>
    unfold ending? at h
    dsimp only at h
    split at h
    · cases h
      rw [List.getElem?_eq_none (Nat.le_refl _)] at hk
      cases hk
    · cases h
  | call k' happening =>
    unfold ending? at h
    dsimp only at h
    split at h
    · next call' hk' =>
      split at h
      · next hrunning =>
        obtain ⟨r'', -, hr''⟩ := Option.map_eq_some_iff.mp h
        cases hr''
        rw [hk] at hk'
        cases hk'
        rw [hended] at hrunning
        cases hrunning
      · cases h
    · cases h
  | answer node id payload => cases h
  | refuse node id reason => cases h
  | disconnect node => cases h

/-- The calls that have ended are those that it was said of. -/
theorem mem_endings_iff (self : NodeId) (moves : List Move) :
    (k, r) ∈ (new self).endings moves ↔ ((new self).run moves).EndedWith k r := by
  induction moves using List.reverseRecOn with
  | nil =>
    unfold EndedWith run
    simp [endings, new]
  | append_singleton moves m ih =>
    rw [endings_append_singleton, run_append_singleton, endedWith_step, List.mem_append, ih,
      Option.mem_toList]

/-- **Every call ends at most once.** -/
theorem endings_nodup (self : NodeId) (moves : List Move) :
    (((new self).endings moves).map Prod.fst).Nodup := by
  induction moves using List.reverseRecOn with
  | nil => exact List.nodup_nil
  | append_singleton moves m ih =>
    rw [endings_append_singleton, List.map_append]
    cases hending : ((new self).run moves).ending? m with
    | none => simpa using ih
    | some ending =>
      obtain ⟨k, r⟩ := ending
      have hnew : k ∉ ((new self).endings moves).map Prod.fst := by
        intro hmem
        obtain ⟨⟨k', r'⟩, hbefore, rfl⟩ := List.mem_map.mp hmem
        exact not_endedWith_of_ending? hending r' ((mem_endings_iff self moves).mp hbefore)
      rw [List.nodup_append]
      refine ⟨ih, by simp, ?_⟩
      intro k' hk' k'' hk'' hsame
      rw [Option.toList_some, List.map_singleton, List.mem_singleton] at hk''
      rw [hsame, hk''] at hk'
      exact hnew hk'

end

/-! ## What calls are told -/

/-- What a move does to a call. -/
inductive Changes (m : Move) (k : Nat) (call : Call) : Stage → Prop where
  | same : Changes m k call call.stage
  | happens {h : Happening} (hm : m = .call k h) : Changes m k call (call.stage.after call.node h)
  | told {r : Except GossipError Bytes} (htells : m.tells = some r)
    (hconcerns : m.concerns call.node call.id = true) (hopen : call.stage.isOpen = true) :
    Changes m k call (call.stage.tell r)

/-- What a call has been told, whether it has looked at it or not. -/
def Stage.holds (r : Except GossipError Bytes) : Stage → Prop
  | running _ told => told = some r
  | ended r' => r' = r
  | dropped => False

/-- **What becomes of a call that was told something**: it ends with that, unless it is
cancelled, or dropped, or the transport fails. -/
inductive Aftermath (k : Nat) (r : Except GossipError Bytes) (moves : List Move) : Stage → Prop where
  | running (sending : Bool) : Aftermath k r moves (.running sending (some r))
  | ended : Aftermath k r moves (.ended r)
  | cancelled (h : .call k .cancel ∈ moves) : Aftermath k r moves (.ended (.error .cancelled))
  | unsent {e : GossipError} (h : .call k (.unsent e) ∈ moves) : Aftermath k r moves (.ended (.error e))
  | dropped (h : .call k .drop ∈ moves) : Aftermath k r moves .dropped

section
variable {c : Correspondence} {call : Call} {k : Nat} {m : Move} {moves : List Move}
  {r : Except GossipError Bytes}

/-- What a move can do to a call. -/
theorem Orderly.changes (hc : Orderly c) (m : Move) (hk : c.calls[k]? = some call) :
    ∃ stage, (c.step m).calls[k]? = some { call with stage } ∧ Changes m k call stage := by
  cases htells : m.tells with
  | some r =>
    rw [hc.calls_of_tells htells, List.getElem?_map, hk, Option.map_some]
    rcases Call.heed_cases m r call with ⟨hopen, hconcerns, heed⟩ | ⟨-, heed⟩
    · rw [heed]
      exact ⟨call.stage.tell r, rfl, Changes.told htells hconcerns hopen⟩
    · rw [heed]
      exact ⟨call.stage, rfl, Changes.same⟩
  | none =>
    cases m with
    | begin node deadline cancelled =>
      refine ⟨call.stage, ?_, Changes.same⟩
      cases cancelled with
      | true => exact getElem?_append_singleton.mpr (Or.inl hk)
      | false => exact getElem?_append_singleton.mpr (Or.inl hk)
    | call k' h =>
      by_cases hsame : k' = k
      · subst hsame
        refine ⟨call.stage.after call.node h, ?_, Changes.happens rfl⟩
        unfold Correspondence.step
        dsimp only
        rw [hk]
        exact List.getElem?_set_self (List.getElem?_eq_some_iff.mp hk).1
      · refine ⟨call.stage, ?_, Changes.same⟩
        unfold Correspondence.step
        dsimp only
        split
        · exact (List.getElem?_set_ne hsame).trans hk
        · exact hk
    | answer node id payload => cases htells
    | refuse node id reason => cases htells
    | disconnect node => cases htells

/-- A call that has just begun was told nothing. -/
theorem not_holds_of_new (hnone : c.calls[k]? = none) (hk : (c.step m).calls[k]? = some call)
    (payload : Bytes) : ¬ call.stage.holds (.ok payload) := by
  have hmap : ∀ f : Call → Call, (c.calls.map f)[k]? = none := by
    intro f
    rw [List.getElem?_map, hnone]
    rfl
  cases m with
  | begin node deadline cancelled =>
    cases cancelled with
    | true =>
      rcases getElem?_append_singleton.mp hk with hk | ⟨-, rfl⟩
      · rw [hnone] at hk
        cases hk
      · simp [Stage.holds]
    | false =>
      rcases getElem?_append_singleton.mp hk with hk | ⟨-, rfl⟩
      · rw [hnone] at hk
        cases hk
      · simp [Stage.holds]
  | call k' h =>
    unfold step at hk
    dsimp only at hk
    split at hk
    · next call' hk' =>
      have hne : k' ≠ k := by
        rintro rfl
        rw [hnone] at hk'
        cases hk'
      rw [show (c.happen k' call' h).calls[k]? = c.calls[k]? from List.getElem?_set_ne hne, hnone] at hk
      cases hk
    · rw [hnone] at hk
      cases hk
  | answer node id payload => exact absurd hk (by simp [step, hear, hmap])
  | refuse node id reason => exact absurd hk (by simp [step, hear, hmap])
  | disconnect node => exact absurd hk (by simp [step, hear, hmap])

theorem Stage.holds_of_after {s : Stage} {node : NodeId} {h : Happening} {payload : Bytes}
    (hholds : (s.after node h).holds (.ok payload)) : s.holds (.ok payload) := by
  unfold after at hholds
  split at hholds
  · exact hholds
  · cases hholds
  · next r => exact congrArg some hholds
  · cases hholds
  · cases hholds
  · exact hholds.elim
  · exact hholds

theorem Stage.eq_of_holds_tell {s : Stage} {r' : Except GossipError Bytes} (hopen : s.isOpen = true)
    (hholds : (s.tell r).holds r') : r = r' := by
  cases s with
  | running sending told => exact Option.some.inj hholds
  | ended r'' => cases hopen
  | dropped => cases hopen

/-- Only answers bring anything. -/
theorem answer_of_tells {payload : Bytes} {node : NodeId} {id? : Option UInt32}
    (htells : m.tells = some (.ok payload)) (hconcerns : m.concerns node id? = true) :
    ∃ id, m = .answer node id payload ∧ id? = some id := by
  cases m with
  | begin node' deadline cancelled => cases htells
  | call k h => cases htells
  | answer node' id payload' =>
    cases htells
    rw [Move.concerns, Bool.and_eq_true, beq_iff_eq, beq_iff_eq] at hconcerns
    obtain ⟨rfl, hid⟩ := hconcerns
    exact ⟨id, rfl, hid⟩
  | refuse node' id reason => cases htells
  | disconnect node' => cases htells

/-- **Where answers come from**: what a call was told is what the node that its request
went to has answered it, while it was outstanding. -/
theorem answered_of_holds (self : NodeId) (h : issued moves < UInt32.size) {payload : Bytes}
    (hk : ((new self).run moves).calls[k]? = some call) (hholds : call.stage.holds (.ok payload)) :
    ∃ earlier later id, moves = earlier ++ .answer call.node id payload :: later ∧ call.id = some id ∧
      ∃ stage, ((new self).run earlier).calls[k]? = some { call with stage } ∧ stage.isOpen = true := by
  induction moves using List.reverseRecOn generalizing call with
  | nil =>
    unfold run at hk
    simp [new] at hk
  | append_singleton moves m ih =>
    rw [issued_append] at h
    have hmoves : issued moves < UInt32.size := by omega
    rw [run_append_singleton] at hk
    cases hbefore : ((new self).run moves).calls[k]? with
    | none => exact absurd hholds (not_holds_of_new hbefore hk payload)
    | some call₀ =>
      obtain ⟨stage, hk', hchanges⟩ := (orderly_run self hmoves).1.changes m hbefore
      rw [hk] at hk'
      cases hk'
      have hstill : call₀.stage.holds (.ok payload) →
          ∃ earlier later id, moves ++ [m] = earlier ++ .answer call₀.node id payload :: later ∧
            call₀.id = some id ∧ ∃ stage, ((new self).run earlier).calls[k]?
              = some { call₀ with stage } ∧ stage.isOpen = true := by
        intro hholds₀
        obtain ⟨earlier, later, id, rfl, hid, hopen⟩ := ih hmoves hbefore hholds₀
        exact ⟨earlier, later ++ [m], id, by simp, hid, hopen⟩
      cases hchanges with
      | same => exact hstill hholds
      | happens hm => exact hstill (Stage.holds_of_after hholds)
      | told htells hconcerns hopen =>
        rw [Stage.eq_of_holds_tell hopen hholds] at htells
        obtain ⟨id, rfl, hid⟩ := answer_of_tells htells hconcerns
        exact ⟨moves, [], id, rfl, hid, call₀.stage, hbefore, hopen⟩

theorem Aftermath.mono {s : Stage} (h : Aftermath k r moves s) (m : Move) :
    Aftermath k r (moves ++ [m]) s := by
  cases h with
  | running sending => exact Aftermath.running sending
  | ended => exact Aftermath.ended
  | cancelled h => exact Aftermath.cancelled (List.mem_append_left _ h)
  | unsent h => exact Aftermath.unsent (List.mem_append_left _ h)
  | dropped h => exact Aftermath.dropped (List.mem_append_left _ h)

theorem Aftermath.after {s : Stage} (haftermath : Aftermath k r moves s) (node : NodeId) (h : Happening) :
    Aftermath k r (moves ++ [.call k h]) (s.after node h) := by
  by_cases hrunning : s.isRunning = true
  · cases haftermath with
    | running sending =>
      cases h with
      | sent =>
        cases sending with
        | true => exact Aftermath.running false
        | false => exact Aftermath.running false
      | unsent e =>
        cases sending with
        | true => exact Aftermath.unsent (by simp)
        | false => exact Aftermath.running false
      | look =>
        cases sending with
        | true => exact Aftermath.running true
        | false => exact Aftermath.ended
      | cancel =>
        cases sending with
        | true => exact Aftermath.running true
        | false => exact Aftermath.cancelled (by simp)
      | timeout =>
        cases sending with
        | true => exact Aftermath.running true
        | false => exact Aftermath.running false
      | drop => exact Aftermath.dropped (by simp)
    | ended => cases hrunning
    | cancelled => cases hrunning
    | unsent => cases hrunning
    | dropped => cases hrunning
  · rw [Stage.after_of_not_running (Bool.eq_false_iff.mpr hrunning)]
    exact haftermath.mono _

theorem Aftermath.not_isOpen {s : Stage} (h : Aftermath k r moves s) : s.isOpen = false := by
  cases h with
  | running sending => rfl
  | ended => rfl
  | cancelled => rfl
  | unsent => rfl
  | dropped => rfl

/-- **What a call is told stays**, whatever comes after it. -/
theorem aftermath_of_told (hc : Orderly c) (hleft : c.network.nextId.toNat + issued moves < UInt32.size)
    {sending : Bool} (hk : c.calls[k]? = some call) (htold : call.stage = .running sending (some r)) :
    ∃ stage, (c.run moves).calls[k]? = some { call with stage } ∧ Aftermath k r moves stage := by
  induction moves using List.reverseRecOn with
  | nil =>
    refine ⟨call.stage, hk, ?_⟩
    rw [htold]
    exact Aftermath.running sending
  | append_singleton moves m ih =>
    rw [issued_append] at hleft
    have hmoves : c.network.nextId.toNat + issued moves < UInt32.size := by omega
    obtain ⟨stage, hk', haftermath⟩ := ih hmoves
    obtain ⟨stage', hk'', hchanges⟩ := (hc.run moves hmoves).1.changes m hk'
    rw [run_append_singleton]
    refine ⟨stage', hk'', ?_⟩
    cases hchanges with
    | same => exact haftermath.mono m
    | happens hm =>
      subst hm
      exact haftermath.after call.node _
    | told htells hconcerns hopen =>
      rw [haftermath.not_isOpen] at hopen
      cases hopen

/-- Where no request ends nobody is told anything. -/
theorem hear_nil (c : Correspondence) : c.hear (c.network, []) = c := by
  have hsame : ∀ call ∈ c.calls, call.hear [] = call := by
    intro call hcall
    obtain ⟨node, id, stage⟩ := call
    unfold Call.hear
    split
    · next hid hstage =>
      dsimp only at hid hstage
      rw [hstage]
      rfl
    · rfl
  unfold hear
  rw [List.map_congr_left hsame, List.map_id']

/-! ## Time -/

/-- The number of a call, if it has any. -/
def number? (c : Correspondence) (k : Nat) : Option UInt32 := c.calls[k]?.bind Call.id

/-- The time of some calls is over, of one after the other. -/
def timeouts (ks : List Nat) : List Move := ks.map fun k => .call k .timeout

/-- The times by which calls are to be answered, in the order in which they begin. -/
def deadlines (moves : List Move) : List Nat :=
  moves.filterMap fun
    | .begin _ deadline _ => some deadline
    | _ => none

/-- The time of a call is over: it runs, was told nothing, and was to be answered by now. -/
def Overdue (c : Correspondence) (moves : List Move) (now k : Nat) : Prop :=
  ∃ call deadline, c.calls[k]? = some call ∧ call.stage.isOpen = true ∧
    (deadlines moves)[k]? = some deadline ∧ deadline ≤ now

/-- Each request waits until the time by which its call is to be answered. -/
structure Dated (c : Correspondence) (moves : List Move) : Prop where
  length_eq : c.calls.length = (deadlines moves).length
  deadline_eq : ∀ (k : Nat) (call : Call) (id : UInt32) (w : Waiting), c.calls[k]? = some call →
    call.id = some id → c.network.waiting[id]? = some w → (deadlines moves)[k]? = some w.deadline

theorem getElem?_waiting_giveUp {n : Network} {id id' : UInt32} {w : Waiting}
    (hw : (n.giveUp id').waiting[id]? = some w) : n.waiting[id]? = some w := by
  have hw : (n.waiting.eraseMany [id'])[id]? = some w := hw
  rw [Entries.getElem?_eraseMany] at hw
  split at hw
  · cases hw
  · exact hw

theorem getElem?_waiting_conclude {n : Network} {node : NodeId} {id id' : UInt32}
    {result : Except GossipError Bytes} {w : Waiting}
    (hw : (n.conclude node id' result).1.waiting[id]? = some w) : n.waiting[id]? = some w := by
  unfold Network.conclude at hw
  split at hw
  · split at hw
    · exact getElem?_waiting_giveUp hw
    · exact hw
  · exact hw

/-- Where no call begins the calls keep their numbers, and no request starts to wait. -/
theorem Dated.of_keeps {c' : Correspondence} (hdated : Dated c moves)
    (hcalls : c'.calls.map Call.id = c.calls.map Call.id)
    (hwaiting : ∀ (id : UInt32) (w : Waiting), c'.network.waiting[id]? = some w →
      c.network.waiting[id]? = some w)
    (hnone : deadlines [m] = []) : Dated c' (moves ++ [m]) := by
  have hsame : deadlines (moves ++ [m]) = deadlines moves := by
    rw [deadlines, List.filterMap_append]
    exact (congrArg _ hnone).trans (List.append_nil _)
  constructor
  · rw [hsame, ← hdated.length_eq]
    simpa using congrArg List.length hcalls
  · intro k call' id w hk' hid hw
    have hids := congrArg (fun ids : List (Option UInt32) => ids[k]?) hcalls
    simp only [List.getElem?_map, hk', Option.map_some] at hids
    obtain ⟨call, hk, hids⟩ := Option.map_eq_some_iff.mp hids.symm
    rw [hsame]
    exact hdated.deadline_eq k call id w hk (hids.trans hid) (hwaiting id w hw)

theorem Dated.happen (hdated : Dated c moves) (hk : c.calls[k]? = some call) (h : Happening) :
    Dated (c.happen k call h) (moves ++ [.call k h]) := by
  apply hdated.of_keeps ?_ ?_ rfl
  · obtain ⟨hlt, hget⟩ := List.getElem?_eq_some_iff.mp hk
    show (c.calls.set k _).map Call.id = _
    rw [List.map_set]
    apply List.ext_getElem?
    intro k'
    rw [List.getElem?_set]
    split
    · next heq =>
      subst heq
      rw [if_pos (by rwa [List.length_map]), List.getElem?_map, hk]
      rfl
    · rfl
  · intro id w hw
    unfold Correspondence.happen at hw
    dsimp only at hw
    split at hw
    · split at hw
      · exact getElem?_waiting_giveUp hw
      · exact hw
    · exact hw

theorem Dated.hear (hdated : Dated c moves) {news : Network × List Ending}
    (hwaiting : ∀ (id : UInt32) (w : Waiting), news.1.waiting[id]? = some w →
      c.network.waiting[id]? = some w)
    (hnone : deadlines [m] = []) : Dated (c.hear news) (moves ++ [m]) := by
  apply hdated.of_keeps ?_ hwaiting hnone
  show (c.calls.map (Call.hear news.2)).map Call.id = _
  rw [List.map_map]
  refine List.map_congr_left fun call _ => ?_
  show (call.hear news.2).id = call.id
  unfold Call.hear
  split
  · rfl
  · rfl

/-- A new call waits, if it waits at all, under the next number and until its own time. -/
theorem Dated.begin (hdated : Dated c moves) (hc : Orderly c) (node : NodeId) (deadline : Nat)
    (cancelled : Bool) : Dated (c.step (.begin node deadline cancelled))
      (moves ++ [.begin node deadline cancelled]) := by
  have happend : deadlines (moves ++ [.begin node deadline cancelled]) = deadlines moves ++ [deadline] :=
    List.filterMap_append
  have hlater : ∀ {k : Nat} {old : Nat}, (deadlines moves)[k]? = some old →
      (deadlines moves ++ [deadline])[k]? = some old := by
    intro k old hold
    exact getElem?_append_singleton.mpr (Or.inl hold)
  -- What waits under the next number is the new call.
  have hfresh : ∀ {k : Nat} {call : Call}, c.calls[k]? = some call →
      call.id ≠ some c.network.nextId := by
    intro k call hk hid
    exact UInt32.lt_irrefl _ (hc.lt_nextId k call _ hk hid)
  cases cancelled with
  | true =>
    constructor
    · rw [happend, List.length_append, ← hdated.length_eq]
      exact List.length_append
    · intro k call id w hk hid hw
      rw [happend]
      rcases getElem?_append_singleton.mp hk with hk | ⟨-, rfl⟩
      · exact hlater (hdated.deadline_eq k call id w hk hid hw)
      · cases hid
  | false =>
    constructor
    · rw [happend, List.length_append, ← hdated.length_eq]
      exact List.length_append
    · intro k call id w hk hid hw
      rw [happend]
      have hw : (c.network.waiting.insert c.network.nextId ⟨node, deadline⟩)[id]? = some w := hw
      rw [Entries.getElem?_insert] at hw
      rcases getElem?_append_singleton.mp hk with hk | ⟨rfl, rfl⟩
      · have hne : c.network.nextId ≠ id := by
          rintro rfl
          exact hfresh hk hid
        rw [if_neg hne] at hw
        exact hlater (hdated.deadline_eq k call id w hk hid hw)
      · rw [if_pos (Option.some.inj hid)] at hw
        rw [hdated.length_eq, ← Option.some.inj hw]
        exact List.getElem?_concat_length

theorem Dated.step (hdated : Dated c moves) (hc : Orderly c) (m : Move) :
    Dated (c.step m) (moves ++ [m]) := by
  cases m with
  | begin node deadline cancelled => exact hdated.begin hc node deadline cancelled
  | call k h =>
    unfold Correspondence.step
    dsimp only
    split
    · next call hk => exact hdated.happen hk h
    · exact hdated.of_keeps rfl (fun _ _ hw => hw) rfl
  | answer node id payload => exact hdated.hear (fun _ _ hw => getElem?_waiting_conclude hw) rfl
  | refuse node id reason => exact hdated.hear (fun _ _ hw => getElem?_waiting_conclude hw) rfl
  | disconnect node =>
    apply hdated.hear ?_ rfl
    intro id w hw
    have hw : (c.network.waiting.eraseMany (c.network.waitingFor node))[id]? = some w := hw
    rw [Entries.getElem?_eraseMany] at hw
    split at hw
    · cases hw
    · exact hw

theorem number?_happen (hk : c.calls[k]? = some call) (h : Happening) (k' : Nat) :
    (c.happen k call h).number? k' = c.number? k' := by
  have hlt : k < c.calls.length := (List.getElem?_eq_some_iff.mp hk).1
  unfold number? happen
  dsimp only
  rw [List.getElem?_set, if_pos hlt]
  by_cases hsame : k = k'
  · subst hsame
    rw [if_pos rfl, hk]
    rfl
  · rw [if_neg hsame]

theorem dated_run (self : NodeId) (hfew : issued moves < UInt32.size) :
    Dated ((new self).run moves) moves := by
  induction moves using List.reverseRecOn with
  | nil => exact ⟨rfl, fun k call id w hk => by simp [run, new] at hk⟩
  | append_singleton moves m ih =>
    rw [issued_append] at hfew
    have hmoves : issued moves < UInt32.size := by omega
    rw [run_append_singleton]
    exact (ih hmoves).step (orderly_run self hmoves).1 m

/-- A call whose request waits runs out of time. -/
theorem step_timeout {id : UInt32} (hk : c.calls[k]? = some call) (hid : call.id = some id)
    (hstage : call.stage = .running false none) :
    c.step (.call k .timeout) = c.happen k call .timeout ∧
      (c.happen k call .timeout).network = c.network.giveUp id ∧
      c.ending? (.call k .timeout) = some (k, .error (.timeout call.node)) := by
  refine ⟨?_, ?_, ?_⟩
  · unfold step
    dsimp only
    rw [hk]
  · unfold happen
    rw [hid, hstage]
    rfl
  · unfold ending?
    dsimp only
    rw [hk]
    dsimp only
    rw [hstage]
    rfl

/-- Calls run out of time one after the other. -/
theorem run_timeouts (hc : Orderly c)
    (hsent : ∀ call ∈ c.calls, call.stage.isOpen = true → call.stage = .running false none)
    {late : List (UInt32 × Waiting)} (hlate : ∀ w ∈ late, c.network.Waits w.1 w.2.node)
    (hnodup : (late.map Prod.fst).Nodup) :
    ∃ ks, (c.run (timeouts ks)).network = c.network.without (late.map Prod.fst) ∧
      List.Forall₂ (fun e w => e.2 = .error (.timeout w.2.node) ∧ c.number? e.1 = some w.1)
        (c.endings (timeouts ks)) late ∧
      (c.endings (timeouts ks)).map Prod.fst = ks := by
  induction late generalizing c with
  | nil =>
    refine ⟨[], ?_, List.Forall₂.nil, rfl⟩
    show c.network = { c.network with waiting := c.network.waiting.eraseMany [] }
    rw [Entries.eraseMany_eq_foldl]
    rfl
  | cons w rest ih =>
    rw [List.map_cons, List.nodup_cons] at hnodup
    obtain ⟨k, call, hk, hid, hnode, hopen⟩ := (hc.waits_iff _ _).mp (hlate w List.mem_cons_self)
    have hstage := hsent call (List.mem_of_getElem? hk) hopen
    obtain ⟨hstep, hnetwork, hending⟩ := step_timeout hk hid hstage
    rw [hnode] at hending
    have hsent' : ∀ call' ∈ (c.happen k call .timeout).calls, call'.stage.isOpen = true →
        call'.stage = .running false none := by
      intro call' hcall' hopen'
      rcases List.mem_or_eq_of_mem_set hcall' with hcall' | rfl
      · exact hsent call' hcall' hopen'
      · rw [hstage] at hopen'
        cases hopen'
    have hlate' : ∀ w' ∈ rest, (c.happen k call .timeout).network.Waits w'.1 w'.2.node := by
      intro w' hw'
      rw [hnetwork, Network.waits_giveUp]
      refine ⟨fun hsame => hnodup.1 ?_, hlate w' (List.mem_cons_of_mem _ hw')⟩
      rw [← hsame]
      exact List.mem_map_of_mem hw'
    obtain ⟨ks, hks, hendings, hcalls⟩ := ih (hc.happen hk .timeout) hsent' hlate' hnodup.2
    have hfirst : c.endings (timeouts (k :: ks))
        = (k, .error (.timeout w.2.node)) :: (c.happen k call .timeout).endings (timeouts ks) := by
      show (c.ending? _).toList ++ (c.step (.call k .timeout)).endings (timeouts ks) = _
      rw [hending, hstep]
      rfl
    refine ⟨k :: ks, ?_, ?_, ?_⟩
    · show ((c.step (.call k .timeout)).run (timeouts ks)).network = _
      rw [hstep, hks, hnetwork, List.map_cons]
      unfold Network.giveUp Network.without
      simp only [Entries.eraseMany_eq_foldl, List.foldl_cons, List.foldl_nil]
    · rw [hfirst]
      refine List.Forall₂.cons ⟨rfl, ?_⟩ (hendings.imp fun e w' h => ⟨h.1, ?_⟩)
      · rw [number?, hk]
        exact hid
      · rw [← number?_happen hk .timeout]
        exact h.2
    · rw [hfirst, List.map_cons, hcalls]

/-- A number belongs to one call. -/
theorem Orderly.eq_of_number? (hc : Orderly c) {k' : Nat} {id : UInt32} (hk : c.number? k = some id)
    (hk' : c.number? k' = some id) : k = k' := by
  obtain ⟨call, hcall, hid⟩ := Option.bind_eq_some_iff.mp hk
  obtain ⟨call', hcall', hid'⟩ := Option.bind_eq_some_iff.mp hk'
  exact hc.unique k k' call call' id hcall hcall' hid hid'

/-- A request that waits does so for an outstanding call, and until its time is over. -/
theorem Dated.overdue_iff (hdated : Dated c moves) (hc : Orderly c) (now : Nat) :
    c.Overdue moves now k ↔ ∃ w ∈ c.network.overdue now, c.number? k = some w.1 := by
  have hmem : ∀ w : UInt32 × Waiting, w ∈ c.network.overdue now ↔
      c.network.waiting[w.1]? = some w.2 ∧ w.2.deadline ≤ now := by
    intro w
    rw [Network.overdue, List.mem_filter, Std.ExtTreeMap.mem_toList_iff_getElem?_eq_some,
      decide_eq_true_eq]
  constructor
  · rintro ⟨call, deadline, hk, hopen, hdeadline, hle⟩
    obtain ⟨id, hid, hwaits⟩ := hc.waits_of_isOpen (List.mem_of_getElem? hk) hopen
    obtain ⟨w, hw, -⟩ := Option.map_eq_some_iff.mp hwaits
    have hsame := hdated.deadline_eq k call id w hk hid hw
    rw [hdeadline] at hsame
    refine ⟨(id, w), (hmem _).mpr ⟨hw, ?_⟩, ?_⟩
    · rwa [← Option.some.inj hsame]
    · rw [number?, hk]
      exact hid
  · rintro ⟨⟨id, w⟩, hlate, hnumber⟩
    obtain ⟨hw, hle⟩ := (hmem _).mp hlate
    have hwaits : c.network.Waits id w.node := by rw [Network.Waits, hw]; rfl
    obtain ⟨k', call, hk', hid, -, hopen⟩ := (hc.waits_iff _ _).mp hwaits
    obtain rfl : k = k' := hc.eq_of_number? hnumber (by rw [number?, hk']; exact hid)
    exact ⟨call, w.deadline, hk', hopen, hdated.deadline_eq k call id w hk' hid hw, hle⟩

/-- **When the time has come** for requests then it is over for their calls, one after
the other, as long as the transport has taken them all. -/
theorem Orderly.expire (hc : Orderly c) (hdated : Dated c moves)
    (hsent : ∀ call ∈ c.calls, call.stage.isOpen = true → call.stage = .running false none)
    (now : Nat) :
    ∃ ks, ks.Nodup ∧ (∀ k, k ∈ ks ↔ c.Overdue moves now k) ∧
      (c.run (timeouts ks)).network = (c.network.expire now).1 ∧
      List.Forall₂ (fun e ending => e.2 = ending.2 ∧ c.number? e.1 = some ending.1)
        (c.endings (timeouts ks)) (c.network.expire now).2 ∧
      (c.endings (timeouts ks)).map Prod.fst = ks := by
  have hlate : ∀ w ∈ c.network.overdue now, c.network.Waits w.1 w.2.node := by
    intro w hw
    have hmem := Std.ExtTreeMap.mem_toList_iff_getElem?_eq_some.mp (List.mem_filter.mp hw).1
    rw [Network.Waits, hmem]
    rfl
  have hnodup : ((c.network.overdue now).map Prod.fst).Nodup := by
    rw [List.Nodup, List.pairwise_map]
    refine List.Pairwise.imp ?_ (Std.ExtTreeMap.distinct_keys_toList.filter _)
    intro w w' hdistinct hsame
    exact hdistinct (Std.LawfulEqCmp.compare_eq_iff_eq.mpr hsame)
  obtain ⟨ks, hnetwork, hendings, hcalls⟩ := run_timeouts hc hsent hlate hnodup
  have hnumbers : ks.map c.number? = (c.network.overdue now).map fun w => some w.1 := by
    rw [← hcalls, List.map_map, ← List.forall₂_eq_eq_eq, List.forall₂_map_left_iff,
      List.forall₂_map_right_iff]
    exact hendings.imp fun e w h => h.2
  refine ⟨ks, ?_, fun k => ?_, hnetwork, ?_, hcalls⟩
  · -- Different requests have different numbers, and so have their calls.
    have hnodup' : (ks.map c.number?).Nodup := by
      rw [hnumbers]
      exact List.pairwise_map.mpr ((List.pairwise_map.mp hnodup).imp fun hne heq =>
        hne (Option.some.inj heq))
    exact (List.pairwise_map.mp hnodup').imp fun hne heq => hne (congrArg _ heq)
  · rw [hdated.overdue_iff hc]
    constructor
    · intro hk
      have hmem := List.mem_map_of_mem (f := c.number?) hk
      rw [hnumbers] at hmem
      obtain ⟨w, hw, hnumber⟩ := List.mem_map.mp hmem
      exact ⟨w, hw, hnumber.symm⟩
    · rintro ⟨w, hw, hnumber⟩
      have hmem := List.mem_map_of_mem (f := fun w : UInt32 × Waiting => some w.1) hw
      rw [← hnumbers] at hmem
      obtain ⟨k', hk', hnumber'⟩ := List.mem_map.mp hmem
      rwa [hc.eq_of_number? hnumber hnumber']
  · show List.Forall₂ _ _ ((c.network.overdue now).map _)
    rw [List.forall₂_map_right_iff]
    exact hendings

/-! ## Matching -/

/-- **Requests and answers are matched** in a run of moves (`Network::request`). -/
structure Matched (self : NodeId) (moves : List Move) : Prop where
  /-- Every call ends at most once. -/
  ends_once : (((new self).endings moves).map Prod.fst).Nodup
  /-- A call gets only what the node that its request went to answered under its
  number, while it was outstanding. -/
  answered : ∀ k payload, (k, .ok payload) ∈ (new self).endings moves →
    ∃ earlier later node id stage, moves = earlier ++ .answer node id payload :: later ∧
      ((new self).run earlier).calls[k]? = some ⟨node, some id, stage⟩ ∧ stage.isOpen = true
  /-- An answer or a refusal of what is not outstanding at its sender changes nothing. -/
  strangers : ∀ id node, ¬ ((new self).run moves).Outstanding id node → ∀ payload reason,
    ((new self).run moves).step (.answer node id payload) = (new self).run moves ∧
      ((new self).run moves).step (.refuse node id reason) = (new self).run moves
  /-- An answer, a refusal or a disconnection is told to exactly the calls with outstanding
  requests that it is about. -/
  told : ∀ m r, m.tells = some r → (((new self).run moves).step m).calls
    = ((new self).run moves).calls.map (Call.heed m r)
  /-- Whoever was told something ends with that, unless the call is cancelled or dropped,
  or the transport fails. -/
  aftermath : ∀ earlier later k call sending r, moves = earlier ++ later →
    ((new self).run earlier).calls[k]? = some call → call.stage = .running sending (some r) →
    ∃ stage, ((new self).run moves).calls[k]? = some { call with stage } ∧ Aftermath k r later stage
  /-- Where the transport has taken all requests, exactly the calls that were to be answered by
  now and were told nothing run out of time by the clock, each once, and this is as if it happened
  to one after the other. -/
  expired : ∀ now, (∀ call ∈ ((new self).run moves).calls,
      call.stage.isOpen = true → call.stage = .running false none) →
    ∃ ks, ks.Nodup ∧ (∀ k, k ∈ ks ↔ ((new self).run moves).Overdue moves now k) ∧
      (((new self).run moves).run (timeouts ks)).network
        = (((new self).run moves).network.expire now).1 ∧
      List.Forall₂ (fun e ending => e.2 = ending.2 ∧ ((new self).run moves).number? e.1 = some ending.1)
        (((new self).run moves).endings (timeouts ks)) (((new self).run moves).network.expire now).2 ∧
      (((new self).run moves).endings (timeouts ks)).map Prod.fst = ks
  /-- Exactly the outstanding requests wait. -/
  waits_iff : ∀ id node, ((new self).run moves).network.Waits id node ↔
    ((new self).run moves).Outstanding id node

/-- **Requests and answers are matched** in every run with fewer requests than there
are numbers. -/
theorem matched_of_run (self : NodeId) (moves : List Move) (h : issued moves < UInt32.size) :
    Matched self moves := by
  have horderly := (orderly_run self h).1
  refine ⟨endings_nodup self moves, ?_, ?_, ?_, ?_, ?_, horderly.waits_iff⟩
  · intro k payload hending
    obtain ⟨call, hk, hended⟩ := (mem_endings_iff self moves).mp hending
    obtain ⟨earlier, later, id, hmoves, hid, stage, hbefore, hopen⟩ :=
      answered_of_holds self h hk (by rw [hended]; exact rfl)
    rw [hid] at hbefore
    exact ⟨earlier, later, call.node, id, stage, hmoves, hbefore, hopen⟩
  · intro id node hnot payload reason
    rw [← horderly.waits_iff] at hnot
    refine ⟨?_, ?_⟩
    · show hear _ (Network.conclude _ _ _ _) = _
      rw [Network.conclude_of_not_waits hnot, hear_nil]
    · show hear _ (Network.conclude _ _ _ _) = _
      rw [Network.conclude_of_not_waits hnot, hear_nil]
  · intro m r htells
    exact horderly.calls_of_tells htells
  · intro earlier later k call sending r hmoves hk htold
    rw [hmoves, issued_append] at h
    have hfew : issued earlier < UInt32.size := by omega
    obtain ⟨hearlier, hnextId⟩ := orderly_run self hfew
    rw [hmoves, run_append]
    exact aftermath_of_told hearlier (by rwa [hnextId]) hk htold
  · intro now hsent
    exact horderly.expire (dated_run self h) hsent now

end

/-- A peer is asked. A stranger answers first and the peer twice, while the request is
still on its way out. -/
def impersonated (peer stranger : NodeId) : List Move :=
  [.begin peer 1000 false, .answer stranger 0 [1], .answer peer 0 [2], .answer peer 0 [3],
    .call 0 .sent, .call 0 .look]

/-- What the peer answered first is all that the call gets. -/
theorem matched_of_impersonated :
    issued (impersonated (.replicate 32 1) (.replicate 32 2)) < UInt32.size ∧
      Matched (.replicate 32 0) (impersonated (.replicate 32 1) (.replicate 32 2)) ∧
      (new (.replicate 32 0)).endings (impersonated (.replicate 32 1) (.replicate 32 2)) = [(0, .ok [2])] :=
  ⟨by decide, matched_of_run _ _ (by decide), by rfl⟩

end TxRelay.Correspondence

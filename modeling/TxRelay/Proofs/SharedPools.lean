/-
How a coordinator is made of sub-pools that others may share.

Sub-pools are not made by the coordinator that they serve. They are there before it, they may
serve another one already, and the list that a new coordinator is given may name one of them
twice. So this is about sub-pools that are each in one place, whoever else knows of them, and the
tables of the coordinators, one for each. A sub-pool that takes a seat remembers the table, and
when it leaves, it is that table that it leaves.

A coordinator is made (`PoolCoordinator::new`) when each sub-pool on its list has taken a seat, in
order, and only then does it ask for new heads and begin to follow them. If a sub-pool does not
take its seat, those before it on the list leave theirs, last first, and there is no coordinator.
If a list names nobody twice, its sub-pools can be looked at by themselves, and making a
coordinator is then what starting one is.
-/
import Mathlib.Logic.Function.Basic
import TxRelay.Pool.Coordinator

set_option autoImplicit false

namespace TxRelay

open Function (update)

/-- What `PoolCoordinator::new` makes of the error of a sub-pool that does not take its seat: it
stays if it says that already, and otherwise the sub-pool is named. -/
def PoolError.ofAttach (name : String) : PoolError → PoolError
  | .attachFailed own reason => .attachFailed own reason
  | e => .attachFailed name e.message

/-- Something that `PoolCoordinator::new` does. -/
inductive ConstructionAct where
  /-- A sub-pool is called, by its index on the list. -/
  | call (call : PoolCall)
  /-- New heads are asked for. -/
  | subscribe
  /-- The loop that follows them begins. -/
  | launch
deriving DecidableEq

/-- The calls among the acts, in order. -/
def called (acts : List ConstructionAct) : List PoolCall :=
  acts.filterMap fun
    | .call call => some call
    | _ => none

theorem called_map_call (calls : List PoolCall) : called (calls.map .call) = calls := by
  rw [called, List.filterMap_map]
  exact List.filterMap_some

theorem called_append (acts acts' : List ConstructionAct) :
    called (acts ++ acts') = called acts ++ called acts' := List.filterMap_append

/-- **Sub-pools that coordinators share**, and the tables of the coordinators. -/
structure SharedPools (ι σ : Type) where
  pool : ι → σ
  /-- The coordinator at whose table a sub-pool took its last seat. -/
  tableOf : ι → Nat
  /-- What the sub-pools of a coordinator share. -/
  tables : Nat → Commons

namespace SharedPools

section
variable {ι σ : Type} [DecidableEq ι] [SubPool σ]

/-! ## Construction -/

/-- A sub-pool is to take a seat at a table (`SubPool::init`). -/
def attach (h : SharedPools ι σ) (k : Nat) (head : Header) (seat : Nat) (i : ι) :
    SharedPools ι σ × Outcome :=
  match SubPool.attach (h.pool i) seat head with
  | (p, .ok ()) => ({ h with pool := update h.pool i p, tableOf := update h.tableOf i k }, .ok ())
  | (p, .error e) => ({ h with pool := update h.pool i p }, .error e)

/-- A sub-pool leaves the table at which it took its last seat (`SubPool::close`). -/
def detach (h : SharedPools ι σ) (i : ι) : SharedPools ι σ × Outcome :=
  let (p, c, r) := SubPool.detach (h.pool i) (h.tables (h.tableOf i))
  ({ h with pool := update h.pool i p, tables := update h.tables (h.tableOf i) c }, r)

/-- Sub-pools take the seats from a given one on, until one does not: then its index, and the
error. Also the calls. -/
def seatFrom (k : Nat) (head : Header) :
    Nat → SharedPools ι σ → List ι → SharedPools ι σ × List PoolCall × Except (Nat × PoolError) Unit
  | _, h, [] => (h, [], .ok ())
  | seat, h, i :: rest =>
    match h.attach k head seat i with
    | (h, .ok ()) =>
      let (h, calls, r) := seatFrom k head (seat + 1) h rest
      (h, .attach seat :: calls, r)
    | (h, .error e) => (h, [.attach seat], .error (seat, e.ofAttach (SubPool.name (h.pool i))))

/-- Sub-pools leave, the one with the last index first. Nobody listens to what they say. -/
def dismiss (h : SharedPools ι σ) : List ι → SharedPools ι σ × List PoolCall
  | [] => (h, [])
  | i :: rest =>
    let (h, calls) := (h.detach i).1.dismiss rest
    (h, .detach rest.length :: calls)

/-- The same sub-pools, with a new table. -/
def opened (h : SharedPools ι σ) (k poolCount : Nat) : SharedPools ι σ :=
  { h with tables := update h.tables k ⟨Reservations.new poolCount, Bus.new Bus.standardCapacity⟩ }

/-- **A coordinator is made** of the listed sub-pools, or it is not, and why
(`PoolCoordinator::new`). -/
def construct (h : SharedPools ι σ) (k : Nat) (head : Header) (listed : List ι) :
    SharedPools ι σ × List ConstructionAct × Outcome :=
  match (h.opened k listed.length).seatFrom k head 0 listed with
  | (h, calls, .ok ()) => (h, calls.map .call ++ [.subscribe, .launch], .ok ())
  | (h, calls, .error (n, e)) =>
    let (h, left) := h.dismiss (listed.take n).reverse
    (h, (calls ++ left).map .call, .error e)

/-! ## One sub-pool -/

section
variable (h : SharedPools ι σ) (k : Nat) (head : Header) (seat : Nat) (i : ι)

/-- What there is to say of a sub-pool that is to take a seat: only it may change, and it
remembers the table if it took the seat. -/
theorem attach_eq :
    h.attach k head seat i =
      ({ pool := update h.pool i (SubPool.attach (h.pool i) seat head).1
         tableOf := if (SubPool.attach (h.pool i) seat head).2.isOk then update h.tableOf i k else h.tableOf
         tables := h.tables },
        (SubPool.attach (h.pool i) seat head).2) := by
  rw [attach]
  generalize SubPool.attach (h.pool i) seat head = attached
  obtain ⟨p, r⟩ := attached
  cases r with
  | ok => rfl
  | error e => rfl

@[simp] theorem tables_attach : (h.attach k head seat i).1.tables = h.tables := by rw [attach_eq]

theorem pool_attach : (h.attach k head seat i).1.pool
    = update h.pool i (SubPool.attach (h.pool i) seat head).1 := by rw [attach_eq]

variable {i}

theorem pool_attach_of_ne {j : ι} (hne : j ≠ i) : (h.attach k head seat i).1.pool j = h.pool j := by
  rw [pool_attach, Function.update_of_ne hne]

theorem tableOf_attach_of_ne {j : ι} (hne : j ≠ i) :
    (h.attach k head seat i).1.tableOf j = h.tableOf j := by
  rw [attach_eq]
  dsimp only
  split
  · exact Function.update_of_ne hne _ _
  · rfl

variable {h k head seat}

theorem tableOf_attach_of_ok (hok : (h.attach k head seat i).2 = .ok ()) :
    (h.attach k head seat i).1.tableOf = update h.tableOf i k := by
  rw [attach_eq] at hok ⊢
  dsimp only at hok ⊢
  rw [hok]
  rfl

theorem tableOf_attach_of_error {e : PoolError} (herror : (h.attach k head seat i).2 = .error e) :
    (h.attach k head seat i).1.tableOf = h.tableOf := by
  rw [attach_eq] at herror ⊢
  dsimp only at herror ⊢
  rw [herror]
  rfl

end

/-! ## Taking seats -/

/-- The sub-pools when some were told to take the seats from a given one on. -/
def seats (k : Nat) (head : Header) : Nat → SharedPools ι σ → List ι → SharedPools ι σ
  | _, h, [] => h
  | seat, h, i :: rest => seats k head (seat + 1) (h.attach k head seat i).1 rest

/-- Each of the listed sub-pools takes its seat, given how they all are when its turn comes. -/
def Willing (k : Nat) (head : Header) : Nat → SharedPools ι σ → List ι → Prop
  | _, _, [] => True
  | seat, h, i :: rest =>
    (h.attach k head seat i).2 = .ok () ∧ Willing k head (seat + 1) (h.attach k head seat i).1 rest

/-- **A sub-pool is the first that does not take its seat**, after others that do. -/
structure Refused (h : SharedPools ι σ) (k : Nat) (head : Header) (before : List ι) (i : ι)
    (e : PoolError) : Prop where
  willing : Willing k head 0 h before
  refused : ((seats k head 0 h before).attach k head before.length i).2 = .error e

section
variable {h : SharedPools ι σ} {k : Nat} {head : Header} {seat : Nat} {before : List ι} {i : ι}
  {e : PoolError}

/-- After those that take their seats it is the turn of the rest. -/
theorem seatFrom_append (hwilling : Willing k head seat h before) (rest : List ι) :
    seatFrom k head seat h (before ++ rest) =
      let later := seatFrom k head (seat + before.length) (seats k head seat h before) rest
      (later.1, (List.range' seat before.length).map .attach ++ later.2.1, later.2.2) := by
  induction before generalizing seat h with
  | nil => rfl
  | cons i before ih =>
    obtain ⟨hok, hlater⟩ := hwilling
    have hrest := ih hlater
    rw [List.cons_append, seatFrom, seats, List.length_cons, List.range'_succ, List.map_cons,
      show seat + (before.length + 1) = seat + 1 + before.length by omega]
    generalize h.attach k head seat i = attached at hok hrest
    obtain ⟨h', r⟩ := attached
    obtain rfl : r = .ok () := hok
    dsimp only at hrest ⊢
    rw [hrest]
    rfl

theorem seatFrom_of_error (herror : (h.attach k head seat i).2 = .error e) (rest : List ι) :
    seatFrom k head seat h (i :: rest) = ((h.attach k head seat i).1, [.attach seat],
      .error (seat, e.ofAttach (SubPool.name ((h.attach k head seat i).1.pool i)))) := by
  rw [seatFrom]
  generalize h.attach k head seat i = attached at herror
  obtain ⟨h', r⟩ := attached
  obtain rfl : r = .error e := herror
  rfl

/-- Either everybody takes a seat, or somebody is the first that does not. -/
theorem willing_or_refused (k : Nat) (head : Header) (seat : Nat) (h : SharedPools ι σ)
    (listed : List ι) : Willing k head seat h listed ∨ ∃ before i rest e, listed = before ++ i :: rest ∧
      Willing k head seat h before ∧
        ((seats k head seat h before).attach k head (seat + before.length) i).2 = .error e := by
  induction listed generalizing seat h with
  | nil => exact Or.inl trivial
  | cons i' rest' ih =>
    cases hfirst : (h.attach k head seat i').2 with
    | error e => exact Or.inr ⟨[], i', rest', e, rfl, trivial, hfirst⟩
    | ok =>
      rcases ih (seat + 1) (h.attach k head seat i').1 with
        hlater | ⟨before, i, rest, e, rfl, hlater, herror⟩
      · exact Or.inl ⟨hfirst, hlater⟩
      · refine Or.inr ⟨i' :: before, i, rest, e, rfl, ⟨hfirst, hlater⟩, ?_⟩
        rw [List.length_cons, show seat + (before.length + 1) = seat + 1 + before.length by omega]
        exact herror

end

/-! A new table is nothing to those who take seats. -/

section
variable (h : SharedPools ι σ) (k poolCount : Nat) (head : Header) (seat : Nat)

omit [DecidableEq ι] [SubPool σ] in
theorem tables_opened : (h.opened k poolCount).tables k
    = ⟨Reservations.new poolCount, Bus.new Bus.standardCapacity⟩ := Function.update_self _ _ _

theorem attach_opened (i : ι) : (h.opened k poolCount).attach k head seat i
    = ((h.attach k head seat i).1.opened k poolCount, (h.attach k head seat i).2) := by
  rw [attach_eq, attach_eq]
  rfl

theorem seats_opened (listed : List ι) : seats k head seat (h.opened k poolCount) listed
    = (seats k head seat h listed).opened k poolCount := by
  induction listed generalizing seat h with
  | nil => rfl
  | cons i rest ih => rw [seats, attach_opened, ih, seats]

theorem willing_opened {listed : List ι} (hwilling : Willing k head seat h listed) :
    Willing k head seat (h.opened k poolCount) listed := by
  induction listed generalizing seat h with
  | nil => exact trivial
  | cons i rest ih =>
    rw [Willing, attach_opened]
    exact ⟨hwilling.1, ih _ _ hwilling.2⟩

end

/-! ## What stays as it is -/

section
variable (h : SharedPools ι σ) (k : Nat) (head : Header) (seat : Nat)

@[simp] theorem tables_seats (listed : List ι) : (seats k head seat h listed).tables = h.tables := by
  induction listed generalizing seat h with
  | nil => rfl
  | cons i rest ih => rw [seats, ih, tables_attach]

/-- Whoever is not on the list stays as it is, where it is. -/
theorem seats_of_not_mem {listed : List ι} {j : ι} (hj : j ∉ listed) :
    (seats k head seat h listed).pool j = h.pool j ∧
      (seats k head seat h listed).tableOf j = h.tableOf j := by
  induction listed generalizing seat h with
  | nil => exact ⟨rfl, rfl⟩
  | cons i rest ih =>
    rw [List.mem_cons, not_or] at hj
    obtain ⟨hpool, htable⟩ := ih (h.attach k head seat i).1 (seat + 1) hj.2
    rw [pool_attach_of_ne h k head seat hj.1] at hpool
    rw [tableOf_attach_of_ne h k head seat hj.1] at htable
    exact ⟨hpool, htable⟩

variable {h k head seat}

/-- Whoever takes a seat is at the table then. -/
theorem tableOf_seats {listed : List ι} (hwilling : Willing k head seat h listed) {j : ι}
    (hj : j ∈ listed) : (seats k head seat h listed).tableOf j = k := by
  induction listed generalizing seat h with
  | nil => cases hj
  | cons i rest ih =>
    rw [seats]
    by_cases hmem : j ∈ rest
    · exact ih hwilling.2 hmem
    · obtain rfl : j = i := (List.mem_cons.mp hj).resolve_right hmem
      rw [(seats_of_not_mem _ k head (seat + 1) hmem).2, tableOf_attach_of_ok hwilling.1,
        Function.update_self]

end

/-! ## Leaving -/

section
variable (h : SharedPools ι σ)

theorem pool_detach (i : ι) : (h.detach i).1.pool
    = update h.pool i (SubPool.detach (h.pool i) (h.tables (h.tableOf i))).1 := rfl

theorem dismiss_cons (i : ι) (rest : List ι) :
    (h.dismiss (i :: rest)).1 = ((h.detach i).1.dismiss rest).1 := rfl

theorem dismiss_append (leaving rest : List ι) :
    (h.dismiss (leaving ++ rest)).1 = ((h.dismiss leaving).1.dismiss rest).1 := by
  induction leaving generalizing h with
  | nil => rfl
  | cons i leaving ih => exact ih (h.detach i).1

/-- Each of them is told once, the last index first. -/
theorem calls_dismiss (leaving : List ι) :
    (h.dismiss leaving).2 = (List.range leaving.length).reverse.map .detach := by
  induction leaving generalizing h with
  | nil => rfl
  | cons i rest ih =>
    rw [List.length_cons, List.range_succ, List.reverse_append, List.reverse_singleton,
      List.singleton_append, List.map_cons, ← ih (h.detach i).1]
    rfl

@[simp] theorem tableOf_dismiss (leaving : List ι) : (h.dismiss leaving).1.tableOf = h.tableOf := by
  induction leaving generalizing h with
  | nil => rfl
  | cons i rest ih => exact ih (h.detach i).1

theorem pool_dismiss_of_not_mem {leaving : List ι} {j : ι} (hj : j ∉ leaving) :
    (h.dismiss leaving).1.pool j = h.pool j := by
  induction leaving generalizing h with
  | nil => rfl
  | cons i rest ih =>
    rw [List.mem_cons, not_or] at hj
    rw [dismiss_cons, ih _ hj.2, pool_detach, Function.update_of_ne hj.1]

/-- **Only the tables that are left change.** -/
theorem tables_dismiss_of_ne {leaving : List ι} {t : Nat} (hat : ∀ i ∈ leaving, h.tableOf i ≠ t) :
    (h.dismiss leaving).1.tables t = h.tables t := by
  induction leaving generalizing h with
  | nil => rfl
  | cons i rest ih =>
    have hfirst : (h.detach i).1.tables t = h.tables t :=
      Function.update_of_ne (Ne.symm (hat i List.mem_cons_self)) _ _
    exact (ih (h.detach i).1 fun i' hi' => hat i' (List.mem_cons_of_mem i hi')).trans hfirst

end

/-! ## A coordinator, or none -/

section
variable {h : SharedPools ι σ} {k : Nat} {head : Header} {before listed : List ι} {i : ι}
  {e : PoolError}

/-- The sub-pools when one has refused. -/
def refusing (h : SharedPools ι σ) (k : Nat) (head : Header) (before : List ι) (i : ι) :
    SharedPools ι σ :=
  ((seats k head 0 h before).attach k head before.length i).1

/-- **If everybody takes a seat, there is a coordinator.** -/
theorem construct_of_willing (hwilling : Willing k head 0 h listed) :
    h.construct k head listed =
      ((seats k head 0 h listed).opened k listed.length,
        ((List.range listed.length).map .attach).map .call ++ [.subscribe, .launch], .ok ()) := by
  have hseats := seatFrom_append (willing_opened h k listed.length head 0 hwilling) []
  rw [List.append_nil, seats_opened] at hseats
  rw [construct, hseats, List.range_eq_range']
  simp [seatFrom]

/-- The calls if the sub-pool at an index refuses: all seats up to it are offered, and those
before it are left, the last one first. -/
def unwinding (n : Nat) : List PoolCall :=
  (List.range (n + 1)).map .attach ++ (List.range n).reverse.map .detach

/-- **If a sub-pool refuses, there is none**, and those before it leave. -/
theorem construct_of_refused (hr : h.Refused k head before i e) (rest : List ι) :
    h.construct k head (before ++ i :: rest) =
      ((((refusing h k head before i).opened k (before ++ i :: rest).length).dismiss before.reverse).1,
        (unwinding before.length).map .call,
        .error (e.ofAttach (SubPool.name ((refusing h k head before i).pool i)))) := by
  have hattach :=
    attach_opened (seats k head 0 h before) k (before ++ i :: rest).length head before.length i
  have herror : (((seats k head 0 h before).opened k (before ++ i :: rest).length).attach k head
      before.length i).2 = .error e := by
    rw [hattach]
    exact hr.refused
  have hseats := seatFrom_append
    (willing_opened h k (before ++ i :: rest).length head 0 hr.willing) (i :: rest)
  rw [seats_opened, Nat.zero_add, seatFrom_of_error herror, hattach] at hseats
  have hcalls : (List.range' 0 before.length).map PoolCall.attach ++ [.attach before.length]
      = (List.range (before.length + 1)).map .attach := by
    rw [List.range_succ, List.map_append, List.range_eq_range']
    rfl
  rw [construct, hseats]
  dsimp only
  rw [List.take_left, hcalls, calls_dismiss, List.length_reverse]
  rfl

end

/-! ## Lists that name nobody twice -/

section
variable {h : SharedPools ι σ} {k : Nat} {head : Header} {seat : Nat} {before rest listed : List ι}
  {i : ι} {e : PoolError}

theorem map_pool_attach (hi : i ∉ rest) :
    rest.map (h.attach k head seat i).1.pool = rest.map h.pool := by
  apply List.map_congr_left
  intro j hj
  apply pool_attach_of_ne
  rintro rfl
  exact hi hj

theorem map_pool_seats (hdisjoint : ∀ j ∈ rest, j ∉ listed) :
    rest.map (seats k head seat h listed).pool = rest.map h.pool :=
  List.map_congr_left fun j hj => (seats_of_not_mem h k head seat (hdisjoint j hj)).1

/-- Those that take their seats do so in a list by itself as well. -/
theorem attachFrom_of_willing (hwilling : Willing k head seat h before) (rest : List ι)
    (hnodup : (before ++ rest).Nodup) :
    Coordinator.attachFrom head seat ((before ++ rest).map h.pool) =
        (before.map (seats k head seat h before).pool ++
            (Coordinator.attachFrom head (seat + before.length) (rest.map h.pool)).1,
          (Coordinator.attachFrom head (seat + before.length) (rest.map h.pool)).2) ∧
      Coordinator.attachable head seat ((before ++ rest).map h.pool)
        = before.length + Coordinator.attachable head (seat + before.length) (rest.map h.pool) := by
  induction before generalizing seat h with
  | nil => exact ⟨rfl, (Nat.zero_add _).symm⟩
  | cons i before ih =>
    obtain ⟨hok, hlater⟩ := hwilling
    rw [List.cons_append, List.nodup_cons] at hnodup
    obtain ⟨hi, hnodup⟩ := hnodup
    obtain ⟨hseated, hcount⟩ := ih hlater hnodup
    have hrest : i ∉ rest := fun hmem => hi (List.mem_append_right _ hmem)
    have hbefore : i ∉ before := fun hmem => hi (List.mem_append_left _ hmem)
    have hpool : (seats k head (seat + 1) (h.attach k head seat i).1 before).pool i
        = (SubPool.attach (h.pool i) seat head).1 := by
      rw [(seats_of_not_mem _ k head (seat + 1) hbefore).1, pool_attach, Function.update_self]
    rw [map_pool_attach hi, map_pool_attach hrest] at hseated hcount
    rw [attach_eq] at hok
    rw [List.cons_append, List.map_cons, Coordinator.attachFrom, Coordinator.attachable, seats,
      List.map_cons, hpool, List.length_cons,
      show seat + (before.length + 1) = seat + 1 + before.length by omega]
    dsimp only at hok
    generalize SubPool.attach (h.pool i) seat head = attached at hok ⊢
    obtain ⟨p, r⟩ := attached
    obtain rfl : r = .ok () := hok
    dsimp only
    rw [hseated, hcount]
    exact ⟨rfl, by omega⟩

/-- And so does the one that does not. -/
theorem attachFrom_of_error (herror : (h.attach k head seat i).2 = .error e) (hi : i ∉ rest) :
    Coordinator.attachFrom head seat ((i :: rest).map h.pool) =
        ((i :: rest).map (h.attach k head seat i).1.pool,
          .error (e.ofAttach (SubPool.name ((h.attach k head seat i).1.pool i)))) ∧
      Coordinator.attachable head seat ((i :: rest).map h.pool) = 0 := by
  rw [List.map_cons, List.map_cons, map_pool_attach hi, pool_attach, Function.update_self,
    Coordinator.attachFrom, Coordinator.attachable]
  rw [attach_eq] at herror
  dsimp only at herror
  generalize SubPool.attach (h.pool i) seat head = attached at herror
  obtain ⟨p, r⟩ := attached
  obtain rfl : r = .error e := herror
  cases e <;> exact ⟨rfl, rfl⟩

/-- Those that leave do so in a list by itself. -/
theorem detachLast_eq (hnodup : listed.Nodup) (hat : ∀ i ∈ listed, h.tableOf i = k) :
    Coordinator.detachLast (h.tables k) (listed.map h.pool) =
      (listed.map (h.dismiss listed.reverse).1.pool, (h.dismiss listed.reverse).1.tables k) := by
  induction listed with
  | nil => rfl
  | cons i rest ih =>
    obtain ⟨hi, hrest⟩ := List.nodup_cons.mp hnodup
    have htable : (h.dismiss rest.reverse).1.tableOf i = k := by
      rw [tableOf_dismiss]
      exact hat i List.mem_cons_self
    have hpool : (h.dismiss rest.reverse).1.pool i = h.pool i :=
      h.pool_dismiss_of_not_mem (by simpa using hi)
    rw [List.map_cons, Coordinator.detachLast, ih hrest fun j hj => hat j (List.mem_cons_of_mem i hj),
      List.reverse_cons, dismiss_append, dismiss_cons]
    show _ = ((i :: rest).map ((h.dismiss rest.reverse).1.detach i).1.pool,
      ((h.dismiss rest.reverse).1.detach i).1.tables k)
    have hkept : rest.map ((h.dismiss rest.reverse).1.detach i).1.pool
        = rest.map (h.dismiss rest.reverse).1.pool := by
      apply List.map_congr_left
      intro j hj
      rw [pool_detach, Function.update_of_ne]
      rintro rfl
      exact hi hj
    rw [List.map_cons, hkept, pool_detach, Function.update_self, detach, hpool, htable]
    simp

/-- **Starting a coordinator is making it** of sub-pools of which none is listed twice. -/
theorem start_eq (k : Nat) (hnodup : listed.Nodup) :
    Coordinator.start head (listed.map h.pool) =
      match h.construct k head listed with
      | (h', acts, .ok ()) =>
        .running
          { pools := listed.map h'.pool, commons := h'.tables k, head, resets := 0
            loop := ResetLoop.start head, closed := false, journal := called acts }
      | (h', acts, .error e) => .failed e (listed.map h'.pool) (called acts) := by
  rcases willing_or_refused k head 0 h listed with hwilling | ⟨before, i, rest, e, rfl, hwilling, herror⟩
  · rw [← List.append_nil listed] at hnodup
    obtain ⟨hattached, -⟩ := attachFrom_of_willing hwilling [] hnodup
    rw [List.append_nil] at hattached
    rw [construct_of_willing hwilling, Coordinator.start, hattached]
    dsimp only
    rw [called_append, called_map_call]
    simp [Coordinator.attachFrom, opened, called]
  · rw [Nat.zero_add] at herror
    have hr : h.Refused k head before i e := ⟨hwilling, herror⟩
    obtain ⟨hbefore, hlater, hdisjoint⟩ := List.nodup_append.mp hnodup
    obtain ⟨hi, -⟩ := List.nodup_cons.mp hlater
    have hnot : ∀ j ∈ i :: rest, j ∉ before := fun j hj hmem => hdisjoint j hmem j hj rfl
    -- Seats are offered in the list as they are among all sub-pools, and then left there.
    obtain ⟨hattached, hcount⟩ := attachFrom_of_willing hwilling (i :: rest) hnodup
    rw [Nat.zero_add, ← map_pool_seats hnot] at hattached hcount
    obtain ⟨hrefused, hnobody⟩ := attachFrom_of_error herror hi
    rw [hrefused, ← map_pool_attach (hnot i List.mem_cons_self), ← List.map_append] at hattached
    rw [hnobody, Nat.add_zero] at hcount
    have hat : ∀ j ∈ before,
        ((refusing h k head before i).opened k (before ++ i :: rest).length).tableOf j = k := by
      intro j hj
      show (refusing h k head before i).tableOf j = k
      rw [refusing, tableOf_attach_of_error herror]
      exact tableOf_seats hwilling hj
    have hleft := detachLast_eq hbefore hat
    have hkept : (i :: rest).map (((refusing h k head before i).opened k
        (before ++ i :: rest).length).dismiss before.reverse).1.pool
        = (i :: rest).map (refusing h k head before i).pool := by
      apply List.map_congr_left
      intro j hj
      exact pool_dismiss_of_not_mem _ (by simpa using hnot j hj)
    rw [construct_of_refused hr, Coordinator.start, hattached, hcount]
    dsimp only
    rw [called_map_call, List.length_map, List.map_append, List.take_left' (List.length_map _),
      List.drop_left' (List.length_map _), List.map_append, hkept]
    rw [tables_opened] at hleft
    show Coordinator.Started.failed _ ((Coordinator.detachLast _ (before.map
      ((refusing h k head before i).opened k (before ++ i :: rest).length).pool)).1 ++ _) _ = _
    rw [hleft]
    rfl

end

end

end SharedPools

end TxRelay

/-
Whom a protocol answers, over any number of requests.

Requests come in from anybody, at times that do not go back. Before each of them
the collection, the execution layer and the validators may have changed in any
way. The request is answered exactly if its node has not been let through as
often as the limit allows, is a validator at the current height, is in time and
asks for something that there is an answer to. Being let through is counted for
each node by itself, also where the request is refused later on, so the answers
to a node are the same as if nobody else had asked.
-/
import TxRelay.Proofs.Answer
import TxRelay.Proofs.Throttle

set_option autoImplicit false

namespace TxRelay

/-- **A provider vouches for a node**: it knows the current height, and the
validator set at it, where the node has a weight. -/
def ValidatorProvider.Vouches (p : ValidatorProvider) (subnet : SubnetId) (node : NodeId) : Prop :=
  ∃ height set weight, p.height = .ok height ∧ p.validatorsAt height subnet = .ok set ∧
    set[node]? = some weight ∧ weight ≠ 0

/-- Only whom the provider vouches for is admitted; a lookup that fails admits
nobody. -/
theorem ValidatorProvider.admits_lookup_iff {p : ValidatorProvider} {subnet : SubnetId}
    {node : NodeId} : (p.lookup subnet).admits node = true ↔ p.Vouches subnet node := by
  rw [lookup, Vouches, ValidatorLookup.admits.eq_def]
  cases p.height with
  | error e => exact ⟨nofun, nofun⟩
  | ok height =>
    dsimp only
    cases hset : p.validatorsAt height subnet with
    | error e =>
      refine ⟨nofun, fun h => ?_⟩
      obtain ⟨height', set, weight, hheight, hset', _⟩ := h
      rw [← Except.ok.inj hheight, hset] at hset'
      cases hset'
    | ok set =>
      dsimp only
      rw [Std.ExtTreeMap.getD_eq_getD_getElem?, decide_eq_true_eq]
      constructor
      · intro hpos
        cases hweight : set[node]? with
        | none =>
          rw [hweight] at hpos
          exact absurd hpos UInt64.not_lt_zero
        | some weight =>
          rw [hweight] at hpos
          exact ⟨height, set, weight, rfl, hset, hweight, UInt64.pos_iff_ne_zero.mp hpos⟩
      · rintro ⟨height', set', weight, hheight, hset', hweight, hne⟩
        rw [← Except.ok.inj hheight, hset] at hset'
        rw [Except.ok.inj hset', hweight]
        exact UInt64.pos_iff_ne_zero.mpr hne

namespace Gossiper

variable {σ ι ε : Type} [GossipItem ι] [GossipSet σ ι ε]

/-! ## Runs -/

/-- A request that comes in, and how things are at that time (`GossipHandler::app_request`). -/
structure Call (σ ε : Type) where
  /-- The collection. -/
  set : σ
  env : ε
  provider : ValidatorProvider
  now : Nat
  deadline : Nat
  node : NodeId
  payload : Bytes

/-- What a protocol was asked, with the answers, oldest first. -/
abbrev Exchanges (σ ε : Type) := List (Call σ ε × Option Bytes)

/-- The protocol after a request, and the answer. -/
def receive (subnet : SubnetId) (g : Gossiper σ ι) (c : Call σ ε) : Gossiper σ ι × Option Bytes :=
  handleRequest { g with set := c.set } c.env (c.provider.lookup subnet) c.now c.deadline c.node
    c.payload

/-- One more request. -/
def serve (subnet : SubnetId) (h : Gossiper σ ι × Exchanges σ ε) (c : Call σ ε) :
    Gossiper σ ι × Exchanges σ ε :=
  ((receive subnet h.1 c).1, h.2 ++ [(c, (receive subnet h.1 c).2)])

/-- A protocol after several requests, and what it answered. -/
def serveAll (subnet : SubnetId) (g : Gossiper σ ι) (calls : List (Call σ ε)) :
    Gossiper σ ι × Exchanges σ ε :=
  calls.foldl (serve subnet) (g, [])

/-- The times at which a node is let through. -/
def granted (settings : GossipSettings) (calls : List (Call σ ε)) (node : NodeId) : List Nat :=
  ((calls.filter fun c => c.node == node).map Call.now).foldl
    (Throttle.grant settings.throttlePeriod settings.throttleLimit) []

/-- The times at which a node got an answer. -/
def answeredAt (exchanges : Exchanges σ ε) (node : NodeId) : List Nat :=
  (exchanges.filter fun x => x.1.node == node && x.2.isSome).map fun x => x.1.now

/-- **When a request is answered**, after some others: its node has not been let through as
often as the limit allows, the provider vouches for it, it is in time, and this is the answer
to what it asks for (`GossipHandler::respond`). -/
structure Deserves (settings : GossipSettings) (subnet : SubnetId) (before : List (Call σ ε))
    (c : Call σ ε) (b : Bytes) : Prop where
  room : (Throttle.recent settings.throttlePeriod c.now (granted settings before c.node)).length
    < settings.throttleLimit
  vouched : c.provider.Vouches subnet c.node
  inTime : c.now < c.deadline
  answer : (Gossiper.new settings c.set : Gossiper σ ι).answerTo c.env c.payload = .ok b

/-! ## One request -/

/-- The counters after a request. -/
def counted (counters : GossipCounters) : Option Bytes → GossipCounters
  | some _ =>
    { counters with
      requestsReceived := counters.requestsReceived + 1
      responsesSent := counters.responsesSent + 1 }
  | none =>
    { counters with
      requestsReceived := counters.requestsReceived + 1
      requestsDropped := counters.requestsDropped + 1 }

theorem fst_respond (g : Gossiper σ ι) (env : ε) (lookup : ValidatorLookup) (now deadline : Nat)
    (node : NodeId) (payload : Bytes) :
    (g.respond env lookup now deadline node payload).1
      = { g with throttle := (g.throttle.handle node now).1 } := by
  rw [respond]
  dsimp only
  split
  · rfl
  split
  · rfl
  split
  · rfl
  · rfl

/-- A request changes what is known of its node, and the counters. -/
theorem fst_receive (subnet : SubnetId) (g : Gossiper σ ι) (c : Call σ ε) :
    (receive subnet g c).1 =
      { g with
        set := c.set
        throttle := (g.throttle.handle c.node c.now).1
        counters := counted g.counters (receive subnet g c).2 } := by
  rw [receive, handleRequest]
  dsimp only
  have hfst := fst_respond
    { g with set := c.set, counters.requestsReceived := g.counters.requestsReceived + 1 } c.env
    (c.provider.lookup subnet) c.now c.deadline c.node c.payload
  split
  · next g' b heq =>
    rw [heq] at hfst
    subst hfst
    rfl
  · next g' e heq =>
    rw [heq] at hfst
    subst hfst
    rfl

/-- An answer depends on the settings and the collection only. -/
theorem answerTo_congr (g g' : Gossiper σ ι) (hsettings : g.settings = g'.settings)
    (hset : g.set = g'.set) (env : ε) (payload : Bytes) :
    g.answerTo env payload = g'.answerTo env payload := by
  rw [answerTo, answerTo, hsettings, hset]

/-- A request is answered if the throttle lets its node through, the provider
vouches for it, it is in time and there is an answer. -/
theorem snd_receive_eq_some_iff {subnet : SubnetId} {g : Gossiper σ ι} {c : Call σ ε} {b : Bytes} :
    (receive subnet g c).2 = some b ↔
      (g.throttle.handle c.node c.now).2 = true ∧ c.provider.Vouches subnet c.node ∧
        c.now < c.deadline ∧
          (Gossiper.new g.settings c.set : Gossiper σ ι).answerTo c.env c.payload = .ok b := by
  rw [receive, snd_handleRequest_eq_some_iff,
    answerTo_congr _ (Gossiper.new g.settings c.set) rfl rfl c.env c.payload]
  constructor
  · rintro ⟨hadmits, hb⟩
    exact ⟨hadmits.allowed, ValidatorProvider.admits_lookup_iff.mp hadmits.validator,
      hadmits.inTime, hb⟩
  · rintro ⟨hallowed, hvouched, htime, hb⟩
    exact ⟨⟨hallowed, ValidatorProvider.admits_lookup_iff.mpr hvouched, htime⟩, hb⟩

/-! ## All requests -/

/-- How a protocol stands after some requests, the last of which were at `now`
at the latest. -/
structure Standing (settings : GossipSettings) (subnet : SubnetId) (calls : List (Call σ ε)) (now : Nat)
    (h : Gossiper σ ι × Exchanges σ ε) : Prop where
  settings_eq : h.1.settings = settings
  period_eq : h.1.throttle.period = settings.throttlePeriod
  limit_eq : h.1.throttle.limit = settings.throttleLimit
  granted : ∀ node, h.1.throttle.Granted node now (Gossiper.granted settings calls node)
  calls_eq : h.2.map Prod.fst = calls
  answered : ∀ (i : Nat) (c : Call σ ε) (answer : Option Bytes), h.2[i]? = some (c, answer) → ∀ b,
    answer = some b ↔ Deserves (ι := ι) settings subnet (calls.take i) c b
  sublist : ∀ node, (answeredAt h.2 node).Sublist (Gossiper.granted settings calls node)
  balanced : h.1.counters.requestsReceived = h.1.counters.requestsDropped + h.1.counters.responsesSent

section
variable {settings : GossipSettings} {subnet : SubnetId} {calls : List (Call σ ε)} {now : Nat}
  {h : Gossiper σ ι × Exchanges σ ε} {c : Call σ ε}

theorem granted_concat (settings : GossipSettings) (calls : List (Call σ ε)) (c : Call σ ε)
    (node : NodeId) :
    granted settings (calls ++ [c]) node =
      if c.node = node then
        Throttle.grant settings.throttlePeriod settings.throttleLimit (granted settings calls node) c.now
      else granted settings calls node := by
  rw [granted, List.filter_append, List.map_append, List.foldl_append, ← granted]
  split
  · next hnode => rw [List.filter_cons_of_pos (by simpa using hnode)]; rfl
  · next hnode => rw [List.filter_cons_of_neg (by simpa using hnode)]; rfl

theorem answeredAt_concat (exchanges : Exchanges σ ε) (c : Call σ ε) (answer : Option Bytes)
    (node : NodeId) :
    answeredAt (exchanges ++ [(c, answer)]) node =
      answeredAt exchanges node ++ if c.node = node ∧ answer.isSome = true then [c.now] else [] := by
  rw [answeredAt, List.filter_append, List.map_append, ← answeredAt]
  congr 1
  split
  · next hboth => rw [List.filter_cons_of_pos (by simpa using hboth)]; rfl
  · next hboth => rw [List.filter_cons_of_neg (by simpa using hboth)]; rfl

/-- A protocol that was asked nothing. -/
theorem Standing.new (settings : GossipSettings) (subnet : SubnetId) (set : σ) :
    Standing settings subnet [] 0 ((Gossiper.new settings set : Gossiper σ ι), []) where
  settings_eq := rfl
  period_eq := rfl
  limit_eq := rfl
  granted node := Throttle.Granted.new _ _ node 0
  calls_eq := rfl
  answered := nofun
  sublist _ := List.Sublist.refl _
  balanced := rfl

/-- **One more request**, not before the others. -/
theorem Standing.serve (hs : Standing settings subnet calls now h) (hle : now ≤ c.now) :
    Standing settings subnet (calls ++ [c]) c.now (serve subnet h c) := by
  have hgranted := (hs.granted c.node).later hle
  have hroom := hgranted.allowed_iff
  rw [hs.period_eq, hs.limit_eq] at hroom
  have hanswer : ∀ b, (receive subnet h.1 c).2 = some b ↔
      Deserves (ι := ι) settings subnet calls c b := by
    intro b
    rw [snd_receive_eq_some_iff, hroom, hs.settings_eq]
    exact ⟨fun ⟨h₁, h₂, h₃, h₄⟩ => ⟨h₁, h₂, h₃, h₄⟩,
      fun hd => ⟨hd.room, hd.vouched, hd.inTime, hd.answer⟩⟩
  have hlength : h.2.length = calls.length := by rw [← hs.calls_eq, List.length_map]
  rw [Gossiper.serve, fst_receive]
  generalize (receive subnet h.1 c).2 = answer at hanswer ⊢
  obtain ⟨hperiod, hlimit⟩ := Throttle.limits_handle h.1.throttle c.node c.now
  refine ⟨hs.settings_eq, hperiod.trans hs.period_eq, hlimit.trans hs.limit_eq, fun node => ?_, ?_,
    fun i c' answer' hi => ?_, fun node => ?_, ?_⟩
  · show (h.1.throttle.handle c.node c.now).1.Granted node c.now _
    rw [granted_concat]
    split
    · next hnode =>
      rw [← hs.period_eq, ← hs.limit_eq, ← hnode]
      exact hgranted.handle
    · next hnode => exact (hs.granted node).handle_of_ne hnode hle
  · show (h.2 ++ [(c, answer)]).map Prod.fst = calls ++ [c]
    rw [List.map_append, hs.calls_eq]
    rfl
  · rcases Nat.lt_or_ge i h.2.length with hlt | hge
    · -- What was answered before stays as it was.
      rw [List.getElem?_append_left hlt] at hi
      rw [List.take_append_of_le_length (by omega)]
      exact hs.answered i c' answer' hi
    · rw [List.getElem?_append_right hge] at hi
      obtain ⟨hzero, heq⟩ := List.getElem?_eq_some_iff.mp hi
      obtain rfl : i = calls.length := by
        rw [List.length_singleton] at hzero
        omega
      obtain ⟨rfl, rfl⟩ := Prod.mk.inj (List.mem_singleton.mp (heq ▸ List.getElem_mem hzero))
      rw [List.take_left]
      exact hanswer
  · show (answeredAt (h.2 ++ [(c, answer)]) node).Sublist _
    rw [answeredAt_concat, granted_concat]
    by_cases hnode : c.node = node
    · rw [if_pos hnode]
      cases answer with
      | none =>
        rw [if_neg (fun hboth => Bool.false_ne_true hboth.2), List.append_nil]
        refine (hs.sublist node).trans ?_
        rw [Throttle.grant]
        split
        · exact List.sublist_append_left _ _
        · exact List.Sublist.refl _
      | some b =>
        -- Who is answered was let through.
        rw [if_pos ⟨hnode, rfl⟩, Throttle.grant, ← hnode, if_pos ((hanswer b).mp rfl).room]
        exact (hs.sublist c.node).append (List.Sublist.refl _)
    · rw [if_neg hnode, if_neg fun hboth => hnode hboth.1, List.append_nil]
      exact hs.sublist node
  · have hbalanced := hs.balanced
    cases answer with
    | none =>
      show h.1.counters.requestsReceived + 1
        = h.1.counters.requestsDropped + 1 + h.1.counters.responsesSent
      omega
    | some b =>
      show h.1.counters.requestsReceived + 1
        = h.1.counters.requestsDropped + (h.1.counters.responsesSent + 1)
      omega

/-- **All requests**, one after the other. -/
theorem Standing.serveAll (hs : Standing settings subnet calls now h) {more : List (Call σ ε)}
    (hforward : more.Pairwise fun c c' => c.now ≤ c'.now) (hnow : ∀ c ∈ more, now ≤ c.now) :
    ∃ now', Standing settings subnet (calls ++ more) now' (more.foldl (Gossiper.serve subnet) h) := by
  induction more generalizing calls now h with
  | nil =>
    rw [List.append_nil]
    exact ⟨now, hs⟩
  | cons c rest ih =>
    obtain ⟨hle, hrest⟩ := List.pairwise_cons.mp hforward
    rw [← List.singleton_append, ← List.append_assoc]
    exact ih (hs.serve (hnow c List.mem_cons_self)) hrest hle

end

/-! ## Each node by itself -/

/-- Two protocols are alike to a node. -/
structure Alike (node : NodeId) (g g' : Gossiper σ ι) : Prop where
  settings_eq : g.settings = g'.settings
  period_eq : g.throttle.period = g'.throttle.period
  limit_eq : g.throttle.limit = g'.throttle.limit
  kept_eq : g.throttle.kept node = g'.throttle.kept node

section
variable {node : NodeId} {g g' : Gossiper σ ι} {c : Call σ ε} {subnet : SubnetId}

omit [GossipItem ι] [GossipSet σ ι ε] in
theorem Alike.throttle (h : Alike node g g') : Throttle.Alike node g.throttle g'.throttle :=
  ⟨h.period_eq, h.limit_eq, h.kept_eq⟩

/-- The two give the node the same answer. -/
theorem Alike.snd_receive (h : Alike c.node g g') :
    (receive subnet g c).2 = (receive subnet g' c).2 := by
  refine Option.ext fun b => ?_
  rw [snd_receive_eq_some_iff, snd_receive_eq_some_iff, h.throttle.answer_eq, h.settings_eq]

/-- A request of the node itself. -/
theorem Alike.receive (h : Alike c.node g g') :
    Alike c.node (receive subnet g c).1 (receive subnet g' c).1 := by
  obtain ⟨hperiod, hlimit, hkept⟩ := h.throttle.handle c.now
  rw [fst_receive, fst_receive]
  exact ⟨h.settings_eq, hperiod, hlimit, hkept⟩

/-- A request of another node to one of the two. -/
theorem Alike.receive_of_ne (h : Alike node g g') (hne : c.node ≠ node) :
    Alike node (Gossiper.receive subnet g c).1 g' := by
  obtain ⟨hperiod, hlimit, hkept⟩ := h.throttle.handle_of_ne hne c.now
  rw [fst_receive]
  exact ⟨h.settings_eq, hperiod, hlimit, hkept⟩

end

/-- **What a node is answered** does not depend on the requests of others. -/
theorem filter_foldl_serve (subnet : SubnetId) (node : NodeId) (calls : List (Call σ ε))
    {h h' : Gossiper σ ι × Exchanges σ ε} (halike : Alike node h.1 h'.1)
    (hlog : h.2.filter (fun x => x.1.node == node) = h'.2) :
    (calls.foldl (serve subnet) h).2.filter (fun x => x.1.node == node)
      = ((calls.filter fun c => c.node == node).foldl (serve subnet) h').2 := by
  induction calls generalizing h h' with
  | nil => exact hlog
  | cons c rest ih =>
    by_cases hnode : c.node = node
    · subst hnode
      rw [List.filter_cons_of_pos (by simp)]
      refine ih halike.receive ?_
      show (h.2 ++ [(c, (receive subnet h.1 c).2)]).filter _ = h'.2 ++ [(c, (receive subnet h'.1 c).2)]
      rw [List.filter_append, hlog, halike.snd_receive, List.filter_cons_of_pos (by simp), List.filter_nil]
    · rw [List.filter_cons_of_neg (by simpa using hnode)]
      refine ih (halike.receive_of_ne hnode) ?_
      show (h.2 ++ [(c, (receive subnet h.1 c).2)]).filter _ = h'.2
      rw [List.filter_append, hlog, List.filter_cons_of_neg (by simpa using hnode), List.filter_nil,
        List.append_nil]

/-! ## Over a whole run -/

theorem sparse_foldl_grant {period limit : Nat} (calls : List Nat) {times : List Nat}
    (h : Throttle.Sparse period limit times) :
    Throttle.Sparse period limit (calls.foldl (Throttle.grant period limit) times) := by
  induction calls generalizing times with
  | nil => exact h
  | cons now rest ih => exact ih (h.grant now)

/-- **Admission over a whole run.** A request is answered exactly if it deserves
an answer, and then the provider vouches for its node; no node gets more answers
than the limit at times that lie less than a period apart; what a node is
answered does not depend on what others ask; and every request that was received
was dropped or answered. -/
theorem admission_of_run (settings : GossipSettings) (subnet : SubnetId) (set : σ)
    (calls : List (Call σ ε)) (hforward : calls.Pairwise fun c c' => c.now ≤ c'.now) :
    let served := serveAll subnet (Gossiper.new settings set : Gossiper σ ι) calls
    served.2.map Prod.fst = calls ∧
      (∀ (i : Nat) (c : Call σ ε) (answer : Option Bytes), served.2[i]? = some (c, answer) → ∀ b,
        (answer = some b ↔ Deserves (ι := ι) settings subnet (calls.take i) c b)) ∧
      (∀ node, Throttle.Sparse settings.throttlePeriod settings.throttleLimit
        (answeredAt served.2 node)) ∧
      (∀ node, served.2.filter (fun x => x.1.node == node) =
        (serveAll subnet (Gossiper.new settings set : Gossiper σ ι)
          (calls.filter fun c => c.node == node)).2) ∧
      served.1.counters.requestsReceived
        = served.1.counters.requestsDropped + served.1.counters.responsesSent := by
  obtain ⟨now, hs⟩ := (Standing.new (ι := ι) settings subnet set).serveAll hforward
    fun c _ => Nat.zero_le c.now
  rw [List.nil_append] at hs
  refine ⟨hs.calls_eq, hs.answered, fun node => ?_, fun node => ?_, hs.balanced⟩
  · exact (sparse_foldl_grant _ (Throttle.Sparse.nil _ _)).sublist (hs.sublist node)
  · exact filter_foldl_serve subnet node calls ⟨rfl, rfl, rfl, rfl⟩ rfl

/-! A node that asks three times in a row, where the limit is two, is answered
twice. -/

/-- A provider that knows one validator, at every height. -/
def soleProvider : ValidatorProvider := ⟨.ok 0, fun _ _ => sole⟩

/-- The validator asks for what is held. -/
def knock (p : Mempool) (now : Nat) : Call Mempool TransferBackend where
  set := (serving p 1).set
  env := (Ledger.new 1 0).transferBackend
  provider := soleProvider
  now := now
  deadline := 10
  node := default
  payload := Wire.Layout.write opening

theorem vouches_soleProvider (subnet : SubnetId) : soleProvider.Vouches subnet default :=
  ⟨0, _, 1, rfl, rfl, Std.ExtTreeMap.getElem?_insert_self, by decide⟩

/-- What the validator was granted after knocking at some times. -/
theorem granted_knock (settings : GossipSettings) (p : Mempool) (times : List Nat) :
    granted settings (times.map (knock p)) default
      = times.foldl (Throttle.grant settings.throttlePeriod settings.throttleLimit) [] := by
  have hall : (times.map (knock p)).filter (fun c => c.node == default) = times.map (knock p) := by
    refine List.filter_eq_self.mpr fun c hc => ?_
    obtain ⟨now, _, rfl⟩ := List.mem_map.mp hc
    exact beq_self_eq_true _
  have htimes : (times.map (knock p)).map Call.now = times := by
    rw [List.map_map]
    exact List.map_id times
  rw [granted, hall, htimes]

theorem exists_answer_knock {p : Mempool} (hp : Mempool.new .small (fun _ => default) = .ok p) :
    ∃ b, ∀ now, (Gossiper.new .standard (knock p now).set : Gossiper Mempool Transfer).answerTo
      (knock p now).env (knock p now).payload = .ok b := by
  have hfits : (Wire.Layout.write (responseOf ((serving p 1).selection
      (Ledger.new 1 0).transferBackend blank opening.salt))).length ≤ Wire.maxMessageBytes := by
    rw [length_response_serving hp Nat.one_ne_zero]
    decide
  have hencode := Wire.encode_eq_ok_iff.mpr ⟨hfits, rfl⟩
  exact ⟨_, fun _ => (answerTo_eq_ok_iff (readable_opening p 1)).mpr hencode⟩

theorem admission_of_three_knocks :
    ∃ p, Mempool.new .small (fun _ => default) = .ok p ∧
      [knock p 0, knock p 1, knock p 2].Pairwise (fun c c' => c.now ≤ c'.now) ∧
      ∃ b, (serveAll default (Gossiper.new .standard p : Gossiper Mempool Transfer)
        [knock p 0, knock p 1, knock p 2]).2
          = [(knock p 0, some b), (knock p 1, some b), (knock p 2, none)] := by
  obtain ⟨p, hp⟩ := Mempool.exists_new_small
  have hforward : [knock p 0, knock p 1, knock p 2].Pairwise (fun c c' => c.now ≤ c'.now) := by
    simp [knock]
  obtain ⟨hcalls, hanswered, _⟩ := admission_of_run (ι := Transfer) .standard default p
    [knock p 0, knock p 1, knock p 2] hforward
  obtain ⟨b, hb⟩ := exists_answer_knock hp
  refine ⟨p, hp, hforward, b, ?_⟩
  generalize (serveAll default (Gossiper.new .standard p : Gossiper Mempool Transfer)
    [knock p 0, knock p 1, knock p 2]).2 = exchanges at hcalls hanswered ⊢
  obtain ⟨⟨_, first⟩, _, rfl, rfl, htwo⟩ := List.map_eq_cons_iff.mp hcalls
  obtain ⟨⟨_, second⟩, _, rfl, rfl, hone⟩ := List.map_eq_cons_iff.mp htwo
  obtain ⟨⟨_, third⟩, _, rfl, rfl, hnil⟩ := List.map_eq_cons_iff.mp hone
  obtain rfl := List.map_eq_nil_iff.mp hnil
  -- The first two were let through just before the third.
  have hroom (times : List Nat) (now : Nat) := congrArg
    (fun granted => (Throttle.recent GossipSettings.standard.throttlePeriod now granted).length)
    (granted_knock .standard p times)
  have hfirst : first = some b := (hanswered 0 _ first rfl b).mpr
    ⟨Nat.lt_of_le_of_lt (Nat.le_of_eq (hroom [] 0)) (by decide), vouches_soleProvider _,
      show 0 < 10 by decide, hb 0⟩
  have hsecond : second = some b := (hanswered 1 _ second rfl b).mpr
    ⟨Nat.lt_of_le_of_lt (Nat.le_of_eq (hroom [0] 1)) (by decide), vouches_soleProvider _,
      show 1 < 10 by decide, hb 1⟩
  have hthird : third = none := Option.eq_none_iff_forall_ne_some.mpr fun b' hb' =>
    absurd (Nat.lt_of_le_of_lt (Nat.le_of_eq (hroom [0, 1] 2).symm)
      ((hanswered 2 _ third rfl b').mp hb').room) (by decide)
  rw [hfirst, hsecond, hthird]

end Gossiper

end TxRelay

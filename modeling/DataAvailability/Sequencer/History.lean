import DataAvailability.Sequencer.Follow

namespace DataAvailability.History

open Codec Sequencer Follow

variable {α : Type}

def assignedBy : Label α → Option α
  | .env (.assign v) => some v
  | _ => none

def assignments (as : List (Label α)) : List α := as.filterMap assignedBy

theorem assignments_cons (a : Label α) (as : List (Label α)) :
    assignments (a :: as) = (assignedBy a).toList ++ assignments as := by
  cases h : assignedBy a <;> simp [assignments, List.filterMap_cons, h]

theorem getElem?_append_of_eq_some {β : Type} {l l' : List β} {i : Nat} {x : β}
    (h : l[i]? = some x) : (l ++ l')[i]? = some x := by
  rw [List.getElem?_append_left (List.getElem?_eq_some_iff.1 h).1, h]

/-- The world measured against the values assigned so far, `hist`: the contract holds the last
of them (`c` before any), each undelivered event carries the value of its assignment, and the
tracker's field holds `v₀` until the loop applies an event, then the value of the assignment
whose event it applied last. -/
structure Faithful (F : TrackedField α) (v₀ c : α) (hist : List α) (w : World α) : Prop where
  emitted : w.emitted = hist.length
  contract : w.contract = hist.getLastD c
  pending : ∀ s ∈ w.subs, ∀ p ∈ s.pending, hist[p.1]? = some p.2
  initial : w.applied = [] → F.get w.tracker = v₀
  last : ∀ q ∈ w.applied.getLast?, hist[q.2]? = some (F.get w.tracker)

variable {F : TrackedField α} {v₀ c : α} {hist : List α}

theorem faithful_init (st : Tracker) (c : α) : Faithful F (F.get st) c [] (World.init st c) :=
  ⟨rfl, rfl, by simp [World.init], fun _ => rfl, by simp [World.init]⟩

theorem Faithful.frame {w w' : World α} (h : Faithful F v₀ c hist w)
    (ht : F.get w'.tracker = F.get w.tracker) (hc : w'.contract = w.contract)
    (he : w'.emitted = w.emitted) (ha : w'.applied = w.applied)
    (hs : ∀ s ∈ w'.subs, ∀ p ∈ s.pending, ∃ s' ∈ w.subs, p ∈ s'.pending) :
    Faithful F v₀ c hist w' where
  emitted := he.trans h.emitted
  contract := hc.trans h.contract
  pending s hs' p hp := by
    obtain ⟨s', hs', hp'⟩ := hs s hs' p hp
    exact h.pending s' hs' p hp'
  initial hnil := ht.trans (h.initial (ha ▸ hnil))
  last q hq := by rw [ht]; exact h.last q (ha ▸ hq)

theorem pending_set_empty {subs : List (Subscription α)} {i : Nat} {st : SubStatus} :
    ∀ s ∈ subs.set i ⟨st, []⟩, ∀ p ∈ s.pending, ∃ s' ∈ subs, p ∈ s'.pending := by
  intro s hs p hp
  rcases List.mem_or_eq_of_mem_set hs with hs | rfl
  · exact ⟨s, hs, hp⟩
  · cases hp

theorem pending_watch (w : World α) (ok : Bool) :
    ∀ s ∈ (w.watch ok).subs, ∀ p ∈ s.pending, ∃ s' ∈ w.subs, p ∈ s'.pending := by
  intro s hs p hp
  rcases w.watch_cases ok with ⟨he, -⟩ | ⟨-, he, -⟩ <;> rw [he] at hs
  · exact ⟨s, hs, hp⟩
  · rcases List.mem_append.1 hs with hs | hs
    · exact ⟨s, hs, hp⟩
    · simp [List.mem_singleton.1 hs] at hp

theorem Faithful.assign {w : World α} (h : Faithful F v₀ c hist w) (v : α) :
    Faithful F v₀ c (hist ++ [v]) { w with
      contract := v, emitted := w.emitted + 1, subs := w.subs.map (Subscription.emit w.emitted v) } where
  emitted := by simp [h.emitted]
  contract := (List.getLastD_concat _ _ _).symm
  pending := by
    simp only [List.mem_map]
    rintro _ ⟨s, hs, rfl⟩ p hp
    rcases Subscription.mem_pending_emit hp with hp | rfl
    · exact getElem?_append_of_eq_some (h.pending s hs p hp)
    · rw [h.emitted]
      exact List.getElem?_concat_length hist v
  initial := h.initial
  last q hq := getElem?_append_of_eq_some (h.last q hq)

theorem Faithful.receive {w : World α} (h : Faithful F v₀ c hist w) {j n : Nat} {v : α}
    {rest : List (Nat × α)} (hj : w.subs[j]? = some ⟨.live, (n, v) :: rest⟩) :
    Faithful F v₀ c hist { w with
      tracker := F.set w.tracker v, subs := w.subs.set j ⟨.live, rest⟩,
      pc := .loop, applied := w.applied ++ [(j, n)] } where
  emitted := h.emitted
  contract := h.contract
  pending s hs p hp := by
    rcases List.mem_or_eq_of_mem_set hs with hs | rfl
    · exact h.pending s hs p hp
    · exact h.pending _ (List.getElem?_mem hj) p (List.mem_cons_of_mem _ hp)
  initial hnil := by simp at hnil
  last q hq := by
    simp only [List.getLast?_append, List.getLast?_singleton, Option.or_some, Option.mem_def,
      Option.some.injEq] at hq
    rw [← hq, F.get_set]
    exact h.pending _ (List.getElem?_mem hj) (n, v) (List.mem_cons_self _ _)

theorem Faithful.step {w w' : World α} {a : Label α} (h : Faithful F v₀ c hist w)
    (hs : step F w a = some w') : Faithful F v₀ c (hist ++ (assignedBy a).toList) w' := by
  have hsame : ∀ s ∈ w.subs, ∀ p ∈ s.pending, ∃ s' ∈ w.subs, p ∈ s'.pending :=
    fun s hs p hp => ⟨s, hs, hp⟩
  cases a with
  | env e =>
    rcases envStep_eq_some hs with ⟨v, rfl, rfl⟩ | ⟨i, p, rfl, -, rfl⟩ | ⟨d, rfl, rfl⟩ |
      ⟨rfl, rfl⟩ | ⟨rfl, -, rfl⟩
    · exact h.assign v
    all_goals simp only [assignedBy, Option.toList, List.append_nil]
    · exact h.frame rfl rfl rfl rfl pending_set_empty
    · exact h.frame rfl rfl rfl rfl hsame
    · exact h.frame rfl rfl rfl rfl hsame
    · exact h.frame (F.get_stop _) rfl rfl rfl hsame
  | watcher m =>
    simp only [assignedBy, Option.toList, List.append_nil]
    rcases trackChanges_eq_some hs with ⟨-, -, -, rfl⟩ | ⟨ok, -, -, -, rfl⟩ | ⟨ok, -, -, rfl⟩ |
      ⟨i, j, n, v, rest, -, -, hj, rfl⟩ | ⟨i, -, -, -, rfl⟩ | ⟨i, -, -, -, rfl⟩ | ⟨i, -, -, -, rfl⟩
    · exact h
    · exact h.frame rfl rfl rfl rfl (pending_watch _ ok)
    · exact h.frame rfl rfl rfl rfl (pending_watch _ ok)
    · exact h.receive hj
    · exact h.frame rfl rfl rfl rfl hsame
    · exact h.frame rfl rfl rfl rfl hsame
    · exact h.frame rfl rfl rfl rfl pending_set_empty

theorem Faithful.run {w w' : World α} {as : List (Label α)} (h : Faithful F v₀ c hist w)
    (hr : run F w as = some w') : Faithful F v₀ c (hist ++ assignments as) w' := by
  induction as generalizing w hist with
  | nil =>
    cases hr
    simpa [assignments] using h
  | cons a as ih =>
    simp only [run, Option.bind_eq_some] at hr
    obtain ⟨w₁, h₁, hr⟩ := hr
    rw [assignments_cons, ← List.append_assoc]
    exact ih (h.step h₁) hr

/-- Over every run from `NewTracker` and `Start`, whatever the interleaving, the contract holds
the last value assigned, and the tracker's field holds the value `NewTracker` read until the
loop applies an event, then the value of the assignment whose event it applied last: the
tracker never holds a value the contract was not assigned, nor pairs an event with another
assignment's value. -/
theorem tracker_holds_assigned_value (F : TrackedField α) (st : Tracker) (c : α)
    (as : List (Label α)) {w : World α} (hr : run F (World.init st c) as = some w) :
    w.contract = (assignments as).getLastD c ∧
    (w.applied = [] → F.get w.tracker = F.get st) ∧
    ∀ q ∈ w.applied.getLast?, (assignments as)[q.2]? = some (F.get w.tracker) := by
  have h := (faithful_init (F := F) st c).run hr
  rw [List.nil_append] at h
  exact ⟨h.contract, h.initial, h.last⟩

theorem tracker_holds_assigned_value_two_events :
    let st : Tracker := ⟨false, 10, 1, .zero 20, ""⟩
    let a : Address := FixedBytes.setBytes 20 [1]
    let b : Address := FixedBytes.setBytes 20 [2]
    let as : List (Label Address) :=
      [.watcher (.subscribe true), .env (.assign a), .env (.assign b), .watcher (.receive 0)]
    ∃ w, run addrField (World.init st (.zero 20)) as = some w ∧
      w.contract = (assignments as).getLastD (.zero 20) ∧
      (w.applied = [] → w.tracker.getAddr = st.getAddr) ∧
      ∀ q ∈ w.applied.getLast?, (assignments as)[q.2]? = some w.tracker.getAddr := by
  intro st a b as
  have hw : run addrField (World.init st (.zero 20)) as = some _ := rfl
  exact ⟨_, hw, tracker_holds_assigned_value addrField st _ as hw⟩

/-- However the loop lost updates before, an assignment emitted while some subscription is live
brings it back in step: from there, as long as no lossy step happens, the tracker holds the
contract's value whenever the loop has not returned and no live subscription has an event left
to deliver. -/
theorem assignment_resynchronizes {w w₁ w' : World α} {v : α}
    (hl : ∃ s ∈ w.subs, s.status = .live) (h₁ : step F w (.env (.assign v)) = some w₁)
    (hr : Reaches F (fun w a => ¬ Lossy w a) w₁ w') (hpc : w'.pc ≠ .returned)
    (hq : ∀ s ∈ w'.subs, s.status = .live → s.pending = []) : F.get w'.tracker = w'.contract := by
  obtain ⟨s, hs, hlive⟩ := hl
  cases h₁
  exact (hr.invariant (fun _ _ _ h hl hs => h.step hl hs)
    (synced_assign v fun h => h s hs hlive)).get_eq hpc hq

theorem assignment_resynchronizes_after_loss :
    let st : Tracker := ⟨false, 10, 1, .zero 20, ""⟩
    let a : Address := FixedBytes.setBytes 20 [1]
    let b : Address := FixedBytes.setBytes 20 [2]
    let w : World Address := ⟨st, 0, false, a, 1, [⟨.live, []⟩], .select 0, 10, [true], []⟩
    let w₁ : World Address := { w with contract := b, emitted := 2, subs := [⟨.live, [(1, b)]⟩] }
    run addrField (World.init st (.zero 20)) [.env (.assign a), .watcher (.subscribe true)] = some w ∧
      w.tracker.getAddr ≠ w.contract ∧ step addrField w (.env (.assign b)) = some w₁ ∧
      ∃ w', run addrField w₁ [.watcher (.receive 0)] = some w' ∧ w'.tracker.getAddr = w'.contract := by
  intro st a b w w₁
  have h₁ : step addrField w (.env (.assign b)) = some w₁ := rfl
  have hr : run addrField w₁ [.watcher (.receive 0)] = some _ := rfl
  exact ⟨rfl, by decide, h₁, _, hr, assignment_resynchronizes (by decide) h₁
    (reaches_of_run hr (by decide)) (by decide) (by decide)⟩

def OneAtATime (w : World α) : Label α → Prop
  | .watcher (.subscribe _) | .watcher (.retry _) => ∀ s ∈ w.subs, s.status ≠ .live
  | _ => True

instance (w : World α) : (a : Label α) → Decidable (OneAtATime w a)
  | .watcher (.subscribe _) | .watcher (.retry _) =>
    inferInstanceAs (Decidable (∀ s ∈ w.subs, s.status ≠ .live))
  | .env _ | .watcher .spin | .watcher (.receive _) | .watcher .subErr | .watcher .timeout
  | .watcher .exit => inferInstanceAs (Decidable True)

def OneLive (subs : List (Subscription α)) : Prop :=
  ∀ (i j : Nat) (si sj : Subscription α), subs[i]? = some si → subs[j]? = some sj →
    si.status = .live → sj.status = .live → i = j

theorem OneLive.of_live {subs subs' : List (Subscription α)} (h : OneLive subs)
    (ht : ∀ (k : Nat) (s : Subscription α), subs'[k]? = some s → s.status = .live →
      ∃ s₀, subs[k]? = some s₀ ∧ s₀.status = .live) :
    OneLive subs' := by
  intro i j si sj hi hj hli hlj
  obtain ⟨s₀, hi₀, hl₀⟩ := ht i si hi hli
  obtain ⟨s₁, hj₁, hl₁⟩ := ht j sj hj hlj
  exact h i j s₀ s₁ hi₀ hj₁ hl₀ hl₁

/-- With at most one subscription live: each holds its events in order, only the live one holds
any, each it holds is newer than every event applied, and the applied events come in emission
order across subscriptions. -/
structure Ordered (w : World α) : Prop where
  inOrder : InOrder w.subs w.emitted w.applied
  quiet : ∀ s ∈ w.subs, s.status ≠ .live → s.pending = []
  one : OneLive w.subs
  newer : ∀ s ∈ w.subs, ∀ p ∈ s.pending, ∀ q ∈ w.applied, q.2 < p.1
  sorted : (w.applied.map Prod.snd).Pairwise (· < ·)

theorem ordered_init (st : Tracker) (c : α) : Ordered (World.init st c) :=
  ⟨inOrder_nil, by simp [World.init], fun _ _ _ _ h => by simp [World.init] at h, by
    simp [World.init], List.Pairwise.nil⟩

theorem Ordered.frame {w w' : World α} (h : Ordered w) (hs : w'.subs = w.subs)
    (he : w'.emitted = w.emitted) (ha : w'.applied = w.applied) : Ordered w' := by
  obtain ⟨hi, hq, ho, hn, hso⟩ := h
  rw [← hs, ← he, ← ha] at *
  exact ⟨hi, hq, ho, hn, hso⟩

theorem Ordered.set_empty {w : World α} (h : Ordered w) {i : Nat} {st : SubStatus}
    (hst : st ≠ .live) : Ordered { w with subs := w.subs.set i ⟨st, []⟩ } where
  inOrder := h.inOrder.set_empty i st
  quiet s hs hl := by
    rcases List.mem_or_eq_of_mem_set hs with hs | rfl
    · exact h.quiet s hs hl
    · rfl
  one := h.one.of_live fun k s hk hl => by
    rcases getElem?_set_eq_some hk with ⟨-, rfl⟩ | ⟨-, hk⟩
    · exact absurd hl hst
    · exact ⟨s, hk, hl⟩
  newer s hs p hp := by
    rcases List.mem_or_eq_of_mem_set hs with hs | rfl
    · exact h.newer s hs p hp
    · cases hp
  sorted := h.sorted

theorem Ordered.assign {w : World α} (h : Ordered w) (v : α) :
    Ordered { w with
      contract := v, emitted := w.emitted + 1, subs := w.subs.map (Subscription.emit w.emitted v) } where
  inOrder := h.inOrder.emit v
  quiet := by
    simp only [List.mem_map]
    rintro _ ⟨s, hs, rfl⟩ hl
    rw [Subscription.status_emit] at hl
    simpa [Subscription.emit, hl] using h.quiet s hs hl
  one := h.one.of_live fun k s hk hl => by
    simp only [List.getElem?_map, Option.map_eq_some'] at hk
    obtain ⟨s₀, hk, rfl⟩ := hk
    exact ⟨s₀, hk, by simpa using hl⟩
  newer := by
    simp only [List.mem_map]
    rintro _ ⟨s, hs, rfl⟩ p hp q hq
    rcases Subscription.mem_pending_emit hp with hp | rfl
    · exact h.newer s hs p hp q hq
    · exact h.inOrder.applied_lt q hq
  sorted := h.sorted

theorem Ordered.watch {w : World α} (h : Ordered w) (hn : ∀ s ∈ w.subs, s.status ≠ .live)
    (ok : Bool) : Ordered (w.watch ok) := by
  rcases w.watch_cases ok with ⟨hs, -⟩ | ⟨-, hs, -⟩
  · exact ⟨h.inOrder.watch ok, hs ▸ h.quiet, hs ▸ h.one, hs ▸ h.newer, h.sorted⟩
  · refine ⟨h.inOrder.watch ok, fun s hs' hl => ?_, fun i j si sj hi hj hli hlj => ?_, fun s hs' => ?_,
      h.sorted⟩
    · rw [hs] at hs'
      rcases List.mem_append.1 hs' with hs' | hs'
      · exact h.quiet s hs' hl
      · exact absurd (by simp [List.mem_singleton.1 hs']) hl
    · rw [hs] at hi hj
      have hlast : ∀ k s, (w.subs ++ [⟨.live, []⟩])[k]? = some s → s.status = .live →
          k = w.subs.length := fun k s hk hl => by
        rcases getElem?_append_singleton_eq_some hk with hk | ⟨hk, -⟩
        · exact absurd hl (hn s (List.getElem?_mem hk))
        · exact hk
      rw [hlast i si hi hli, hlast j sj hj hlj]
    · rw [hs] at hs'
      rcases List.mem_append.1 hs' with hs' | hs'
      · exact h.newer s hs'
      · simp [List.mem_singleton.1 hs']

theorem Ordered.receive {w : World α} (h : Ordered w) {j n : Nat} {v : α} {rest : List (Nat × α)}
    (hj : w.subs[j]? = some ⟨.live, (n, v) :: rest⟩) :
    Ordered { w with
      tracker := F.set w.tracker v, subs := w.subs.set j ⟨.live, rest⟩,
      pc := .loop, applied := w.applied ++ [(j, n)] } := by
  have hsort := List.pairwise_cons.1 (h.inOrder.sorted _ (List.getElem?_mem hj))
  have hrest : ∀ p ∈ rest, ∀ q ∈ w.applied ++ [(j, n)], q.2 < p.1 := by
    intro p hp q hq
    rcases List.mem_append.1 hq with hq | hq
    · exact h.newer _ (List.getElem?_mem hj) p (List.mem_cons_of_mem _ hp) q hq
    · rw [List.mem_singleton.1 hq]
      exact hsort.1 p hp
  refine ⟨h.inOrder.receive hj, fun s hs hl => ?_, h.one.of_live fun k s hk hl => ?_,
    fun s hs => ?_, ?_⟩
  · rcases List.mem_or_eq_of_mem_set hs with hs | rfl
    · exact h.quiet s hs hl
    · exact absurd rfl hl
  · rcases getElem?_set_eq_some hk with ⟨rfl, -⟩ | ⟨-, hk⟩
    · exact ⟨_, hj, rfl⟩
    · exact ⟨s, hk, hl⟩
  · obtain ⟨k, hk⟩ := List.mem_iff_getElem?.1 hs
    rcases getElem?_set_eq_some hk with ⟨-, rfl⟩ | ⟨hkj, hk⟩
    · exact hrest
    · have hl : s.status ≠ .live := fun hl => hkj (h.one k j s _ hk hj hl rfl)
      simp [h.quiet s (List.getElem?_mem hk) hl]
  · rw [List.map_append, List.map_singleton]
    refine List.pairwise_append.2 ⟨h.sorted, List.pairwise_singleton _ _, fun a ha b hb => ?_⟩
    obtain ⟨q, hq, rfl⟩ := List.mem_map.1 ha
    rw [List.mem_singleton.1 hb]
    exact h.newer _ (List.getElem?_mem hj) (n, v) (List.mem_cons_self _ _) q hq

theorem Ordered.step {w w' : World α} {a : Label α} (h : Ordered w) (ho : OneAtATime w a)
    (hs : step F w a = some w') : Ordered w' := by
  cases a with
  | env e =>
    rcases envStep_eq_some hs with ⟨v, -, rfl⟩ | ⟨i, p, -, -, rfl⟩ | ⟨d, -, rfl⟩ | ⟨-, rfl⟩ |
      ⟨-, -, rfl⟩
    · exact h.assign v
    · exact h.set_empty (by decide)
    all_goals exact h.frame rfl rfl rfl
  | watcher m =>
    rcases trackChanges_eq_some hs with ⟨-, -, -, rfl⟩ | ⟨ok, rfl, -, -, rfl⟩ | ⟨ok, rfl, -, rfl⟩ |
      ⟨i, j, n, v, rest, -, -, hj, rfl⟩ | ⟨i, -, -, -, rfl⟩ | ⟨i, -, -, -, rfl⟩ | ⟨i, -, -, -, rfl⟩
    · exact h
    · have h' : Ordered { w with deadline := w.now + w.tracker.timeout } := h.frame rfl rfl rfl
      exact h'.watch ho ok
    · have h' : Ordered { w with now := w.now + w.tracker.retry } := h.frame rfl rfl rfl
      exact h'.watch ho ok
    · exact h.receive hj
    · exact h.frame rfl rfl rfl
    · exact h.frame rfl rfl rfl
    · exact (h.set_empty (by decide)).frame rfl rfl rfl

/-- If each subscription of a watcher loop had ended before the loop subscribed again, as an
`Unsubscribe` before each Watch call would ensure, the loop would apply the contract's events in
emission order across all its subscriptions, so the tracker would never go back to an older
value: the reordering comes only from the subscriptions the loop leaves live. -/
theorem applied_in_emission_order {st : Tracker} {c : α} {w : World α}
    (hr : Reaches F OneAtATime (World.init st c) w) : (w.applied.map Prod.snd).Pairwise (· < ·) :=
  (hr.invariant (fun _ _ _ h ho hs => h.step ho hs) (ordered_init st c)).sorted

theorem applied_in_emission_order_after_error :
    let st : Tracker := ⟨false, 10, 1, .zero 20, ""⟩
    let a : Address := FixedBytes.setBytes 20 [1]
    let b : Address := FixedBytes.setBytes 20 [2]
    ∃ w, run addrField (World.init st (.zero 20))
        [.watcher (.subscribe true), .env (.assign a), .watcher (.receive 0), .env (.fail 0),
          .watcher (.subscribe true), .env (.assign b), .watcher (.receive 1)] = some w ∧
      w.applied = [(0, 0), (1, 1)] ∧ (w.applied.map Prod.snd).Pairwise (· < ·) := by
  intro st a b
  have hw : run addrField (World.init st (.zero 20))
      [.watcher (.subscribe true), .env (.assign a), .watcher (.receive 0), .env (.fail 0),
        .watcher (.subscribe true), .env (.assign b), .watcher (.receive 1)] = some _ := rfl
  exact ⟨_, hw, rfl, applied_in_emission_order (reaches_of_run hw (by decide))⟩

end DataAvailability.History

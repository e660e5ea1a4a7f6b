import Mathlib.Algebra.Order.BigOperators.Group.List
import Mathlib.Algebra.Order.Group.Nat
import NestedTxn.Proofs.Resolver.Desk
import NestedTxn.Proofs.Session.Transparency

/-!
# No notice is lost

* `Services.desk`: queues, rows and counters of the services. What the writers do to it is to hand
  notices over, one after the other, and to close queues whose writers are told to stop
  (`Services.Handles`, `exec_work`).
* `Services.Awake`: wherever a message waits, a writer is awake. Then every turn shortens each queue
  by a burst (`exec_runTurns`), and enough turns empty it (`exec_repeatTurns`).
* `Services.StopsLast`: the word to stop comes last in its queue, so that nothing is lost when the
  writer comes to it. `exec_shutQueue`: shutting a queue is to put it there, to hand over what is
  before it, and to close the queue.
* `Deed`: what may be done to queues. Every deed is a list of moves at the desk (`Deed.unfolds`),
  and so is every course of deeds (`Services.after_unfolds`).
* `Services.notices_conserved`: hence what was accepted was handed over, once and in order, or still
  waits, and the counters say how much that is.
-/

namespace NestedTxn

/-- A move of a writer: the first notice of a queue is handed over, or the queue is closed. -/
def Move.IsWork (m : Move) : Prop := (∃ h n stored, m = hand h n stored) ∨ ∃ h, m = close h

theorem Move.filterMap_work {α : Type} {f : Move → Option α} {ms : List Move}
    (hms : ∀ m ∈ ms, m.IsWork) (hhand : ∀ h n stored, f (hand h n stored) = none)
    (hclose : ∀ h, f (close h) = none) : ms.filterMap f = [] := by
  rw [List.filterMap_eq_nil_iff]
  intro m hm
  obtain ⟨h, n, stored, rfl⟩ | ⟨h, rfl⟩ := hms m hm
  · exact hhand h n stored
  · exact hclose h

/-- Where nobody was told to stop before, nothing comes behind the word. -/
theorem Message.stop_last {ms rest : List Message} (h : stop ∉ ms)
    (hrest : stop :: rest <:+ ms ++ [stop]) : rest = [] := by
  obtain hnil | ⟨t, ht, hsuffix⟩ := List.suffix_concat_iff.1 hrest
  · cases hnil
  · cases t with
    | nil => exact (List.cons.inj ht).2
    | cons m t =>
      obtain ⟨rfl, -⟩ := List.cons.inj ht
      exact absurd (hsuffix.subset List.mem_cons_self) h

theorem Turns.mem_order_putFirst {t : Turns} {h i : Nat} :
    i ∈ (t.putFirst h).order ↔ i = h ∨ i ∈ t.order := by
  simp [putFirst, order]

/-- That many bursts are more than what waits. -/
theorem Queue.length_lt_bursts (q : Queue) {count : Nat} (hc : q.bursts ≤ count) :
    q.messages.length < Queue.burst * count :=
  Nat.lt_of_lt_of_le (Nat.lt_mul_div_succ _ (by decide)) (Nat.mul_le_mul_left _ hc)

theorem Queue.bursts_le_foldl {qs : List Queue} {q : Queue} (hq : q ∈ qs) :
    q.bursts ≤ qs.foldl (fun count q => count + q.bursts) 0 := by
  have hsum : qs.foldl (fun count q => count + q.bursts) 0 = (qs.map Queue.bursts).sum := by
    rw [List.sum_eq_foldl, List.foldl_map]
  rw [hsum]
  exact List.le_sum_of_mem (List.mem_map_of_mem hq)

namespace Services

open Queue (inbox)

variable {ε : Type} {s s' s'' : Services} {h : Nat} {q : Queue} {n : Notice} {rest : List Message}
  {ms ms' : List Move}

/-- The queues of the services, with the rows and the counters. -/
def desk (s : Services) : Desk where
  queues := s.queues
  rows := s.rows
  counters := s.counters

/-! ## Handing over -/

/-- The services after a notice was handed to the rows. -/
def afterMark (s : Services) (n : Notice) : Services :=
  match (RowStore.mark n.key n.writer n.resolution).exec s.nextRows with
  | (.ok _, r) =>
    ((s.withRows r).reported (.resolutionStored n.writer n.resolution)).counted .applied
  | (.error fault, r) => (s.withRows r).reported (.resolutionNotPersisted n.writer fault)

theorem exec_writeBack_eq (n : Notice) (s : Services) :
    (writeBack n : Act Services ε Unit).exec s = (.ok (), s.afterMark n) := by
  unfold afterMark
  rcases hx : (RowStore.mark n.key n.writer n.resolution).exec s.nextRows with ⟨fault | _, r⟩ <;>
    simp [writeBack, mark, Act.exec_bind, exec_onRows, hx]

@[simp] theorem afterMark_queues (s : Services) (n : Notice) :
    (s.afterMark n).queues = s.queues := by
  unfold afterMark
  split <;> rfl

@[simp] theorem afterMark_turns (s : Services) (n : Notice) : (s.afterMark n).turns = s.turns := by
  unfold afterMark
  split <;> rfl

/-- The services after the first notice of queue `h` was taken out and handed to the rows. -/
def afterHand (s : Services) (h : Nat) (q : Queue) (n : Notice) (rest : List Message) : Services :=
  { s with queues := s.queues.set h { q with messages := rest } }.afterMark n

theorem inbox_afterHand (hq : s.queues[h]? = some q) (n : Notice) (rest : List Message) (i : Nat) :
    inbox (s.afterHand h q n rest).queues i = if h = i then rest else inbox s.queues i := by
  rw [afterHand, afterMark_queues]
  exact Queue.inbox_set hq

theorem afterHand_step (hq : s.queues[h]? = some q) (hm : q.messages = .notice n :: rest) :
    ∃ stored, s.desk.Step (.hand h n stored) (s.afterHand h q n rest).desk := by
  rcases hx : (RowStore.mark n.key n.writer n.resolution).exec s.nextRows with ⟨x, r⟩
  refine ⟨x.isOk, ?_⟩
  have hstep := Desk.Step.hand (d := s.desk) hq hm hx
  have hrows : nextRows { s with queues := s.queues.set h { q with messages := rest } } =
      s.nextRows := rfl
  unfold afterHand afterMark
  rw [hrows, hx]
  cases x <;> exact hstep

/-! ## What writers do -/

/-- From `s` to `s'` writers made the moves `ms`: they handed notices over, and closed the queues
where they came to the word to stop. -/
structure Handles (s : Services) (ms : List Move) (s' : Services) : Prop where
  moves : s.desk.Moves ms s'.desk
  work : ∀ m ∈ ms, m.IsWork
  closed : ∀ h, .close h ∈ ms ↔ .stop ∈ inbox s.queues h ∧ .stop ∉ inbox s'.queues h
  later : ∀ h, inbox s'.queues h <:+ inbox s.queues h

theorem Handles.of_desk (hd : s'.desk = s.desk) : s.Handles [] s' := by
  have hq : s'.queues = s.queues := congrArg Desk.queues hd
  refine ⟨hd ▸ .nil, List.forall_mem_nil _, fun h => ?_, fun h => ?_⟩
  · rw [hq]
    simp
  · exact hq ▸ List.suffix_rfl

theorem Handles.trans (hw : s.Handles ms s') (hw' : s'.Handles ms' s'') :
    s.Handles (ms ++ ms') s'' where
  moves := hw.moves.append hw'.moves
  work := List.forall_mem_append.2 ⟨hw.work, hw'.work⟩
  closed h := by
    -- a queue whose writer is told to stop is closed in the first part or in the second
    have hstart : .stop ∈ inbox s'.queues h → .stop ∈ inbox s.queues h :=
      fun hm => (hw.later h).subset hm
    have hend : .stop ∈ inbox s''.queues h → .stop ∈ inbox s'.queues h :=
      fun hm => (hw'.later h).subset hm
    rw [List.mem_append, hw.closed, hw'.closed]
    tauto
  later h := (hw'.later h).trans (hw.later h)

/-- The queues that are there are there after writers worked. -/
theorem Handles.length_queues (hw : s.Handles ms s') : s'.queues.length = s.queues.length := by
  have hcap := hw.moves.balanced.capacities
  rw [Move.filterMap_work hw.work (fun _ _ _ => rfl) fun _ => rfl, List.append_nil] at hcap
  simpa [desk] using congrArg List.length hcap

/-- The word to stop comes last in its queue. -/
def StopsLast (s : Services) : Prop :=
  ∀ h rest, .stop :: rest <:+ inbox s.queues h → rest = []

theorem Handles.stopsLast (hw : s.Handles ms s') (hs : s.StopsLast) : s'.StopsLast :=
  fun h rest hrest => hs h rest (hrest.trans (hw.later h))

/-- A writer hands over the first notice of its queue. -/
theorem handles_hand (hq : s.queues[h]? = some q) (hm : q.messages = .notice n :: rest) :
    ∃ stored, s.Handles [.hand h n stored] (s.afterHand h q n rest) := by
  obtain ⟨stored, hstep⟩ := afterHand_step hq hm
  refine ⟨stored, hstep.moves, ?_, fun i => ?_, fun i => ?_⟩
  · exact fun m hm => .inl ⟨h, n, stored, List.mem_singleton.1 hm⟩
  · rw [inbox_afterHand hq]
    split
    · next hi =>
      rw [← hi, Queue.inbox_eq hq, hm]
      simp
    · simp
  · rw [inbox_afterHand hq]
    split
    · next hi =>
      rw [← hi, Queue.inbox_eq hq, hm]
      exact List.suffix_cons ..
    · exact List.suffix_rfl

/-- A writer that comes to the word to stop closes its queue. -/
theorem handles_close (hs : s.StopsLast) (hq : s.queues[h]? = some q)
    (hm : q.messages = .stop :: rest) :
    s.Handles [.close h] { s with queues := s.queues.set h q.close } := by
  have hlast : rest = [] := hs h rest (hm ▸ Queue.inbox_eq hq ▸ List.suffix_rfl)
  have hstep := Desk.Step.close (d := s.desk) hq (by rw [hm, hlast])
  refine ⟨hstep.moves, fun m hm => .inr ⟨h, List.mem_singleton.1 hm⟩, fun i => ?_, fun i => ?_⟩
  · rw [Queue.inbox_close hq, List.mem_singleton]
    split
    · next hi =>
      rw [← hi, Queue.inbox_eq hq, hm]
      simp
    · next hi => simp [Ne.symm hi]
  · rw [Queue.inbox_close hq]
    split
    · exact List.nil_suffix
    · exact List.suffix_rfl

/-- A writer handles up to `budget` messages of its queue and leaves the other queues alone. It
stays awake if anything is left. -/
theorem exec_work (h budget : Nat) {s : Services} (hs : s.StopsLast) :
    ∃ s' ms, (work h budget : Act Services ε Unit).exec s = (.ok (), s') ∧ s.Handles ms s' ∧
      (∀ i, h ≠ i → inbox s'.queues i = inbox s.queues i) ∧
      (inbox s'.queues h).length ≤ (inbox s.queues h).length - budget ∧
      (∀ i, i ∈ s.turns.order → i ∈ s'.turns.order) ∧
      (inbox s'.queues h ≠ [] → h ∈ s'.turns.order) := by
  induction budget generalizing s with
  | zero =>
    refine ⟨_, [], rfl, .of_desk rfl, fun _ _ => rfl, Nat.le_refl _, fun i hi => ?_, fun _ => ?_⟩
    · exact Turns.mem_order_putFirst.2 (.inr hi)
    · exact Turns.mem_order_putFirst.2 (.inl rfl)
  | succ budget ih =>
    rw [work, Act.exec_bind_ok (Act.exec_get s)]
    cases hq : s.queues[h]? with
    | none =>
      have hnone : inbox s.queues h = [] := by simp [inbox, hq]
      refine ⟨s, [], rfl, .of_desk rfl, fun _ _ => rfl, ?_, fun _ => id, (absurd hnone ·)⟩
      rw [hnone]
      exact Nat.zero_le _
    | some q =>
      have hinbox := Queue.inbox_eq hq
      dsimp only
      split
      · next hm =>
        rw [hm] at hinbox
        refine ⟨s, [], rfl, .of_desk rfl, fun _ _ => rfl, ?_, fun _ => id, (absurd hinbox ·)⟩
        rw [hinbox]
        exact Nat.zero_le _
      · next n rest hm =>
        obtain ⟨stored, hhand⟩ := handles_hand hq hm
        obtain ⟨s', ms, hx, hw, hothers, hlen, horder, hawake⟩ := ih (hhand.stopsLast hs)
        refine ⟨s', _, ?_, hhand.trans hw, fun i hi => ?_, ?_, fun i hi => ?_, hawake⟩
        · rw [Act.exec_bind_ok (Act.exec_modify _ s), Act.exec_bind_ok (exec_writeBack_eq n _)]
          exact hx
        · rw [hothers i hi, inbox_afterHand hq, if_neg hi]
        · rw [inbox_afterHand hq, if_pos rfl] at hlen
          rw [hinbox, hm, List.length_cons]
          omega
        · refine horder i ?_
          rw [afterHand, afterMark_turns]
          exact hi
      · next rest hm =>
        refine ⟨_, _, rfl, handles_close hs hq hm, fun i hi => ?_, ?_, fun _ => id, fun hne => ?_⟩
        · rw [Queue.inbox_close hq, if_neg hi]
        · rw [Queue.inbox_close hq, if_pos rfl]
          exact Nat.zero_le _
        · rw [Queue.inbox_close hq, if_pos rfl] at hne
          exact absurd rfl hne

/-! ## Turns -/

/-- Wherever a message waits, the writer is awake, or it is one of `hs`. -/
def Awake (s : Services) (hs : List Nat) : Prop :=
  ∀ h, inbox s.queues h ≠ [] → h ∈ s.turns.order ∨ h ∈ hs

/-- Every writer of a list runs once. -/
theorem exec_writers (hs : List Nat) {s : Services} (hlast : s.StopsLast) (ha : s.Awake hs) :
    ∃ s' ms, (hs.forM runWriter : Act Services ε Unit).exec s = (.ok (), s') ∧ s.Handles ms s' ∧
      s'.Awake [] ∧ ∀ h, (inbox s'.queues h).length ≤
        (inbox s.queues h).length - if h ∈ hs then Queue.burst else 0 := by
  induction hs generalizing s with
  | nil => exact ⟨s, [], rfl, .of_desk rfl, ha, fun h => Nat.le_refl _⟩
  | cons i hs ih =>
    obtain ⟨s₁, ms, hx, hw, hothers, hburst, horder, hleft⟩ :=
      exec_work (ε := ε) i Queue.burst hlast
    have hawake : s₁.Awake hs := by
      intro h hne
      by_cases hih : i = h
      · subst hih
        exact .inl (hleft hne)
      · rw [hothers h hih] at hne
        rcases ha h hne with hmem | hmem
        · exact .inl (horder h hmem)
        · exact .inr ((List.mem_cons.1 hmem).resolve_left (Ne.symm hih))
    obtain ⟨s', ms', hx', hw', hawake', hlen⟩ := ih (hw.stopsLast hlast) hawake
    refine ⟨s', ms ++ ms', ?_, hw.trans hw', hawake', fun h => ?_⟩
    · change (runWriter i >>= fun _ => hs.forM runWriter).exec s = _
      rw [runWriter, Act.exec_bind_ok hx, hx']
    · have hh := hlen h
      by_cases hih : i = h
      · subst hih
        rw [if_pos List.mem_cons_self]
        omega
      · have hmem : h ∈ i :: hs ↔ h ∈ hs := by simp [Ne.symm hih]
        rw [hothers h hih] at hh
        simpa only [hmem] using hh

/-- In a turn every queue with something in it becomes shorter by a burst. -/
theorem exec_runTurns (hlast : s.StopsLast) (ha : s.Awake []) :
    ∃ s' ms, (runTurns : Act Services ε Unit).exec s = (.ok (), s') ∧ s.Handles ms s' ∧
      s'.Awake [] ∧ ∀ h, (inbox s'.queues h).length ≤
        (inbox s.queues h).length - Queue.burst := by
  have hstart : { s with turns := {} }.Awake s.turns.order := fun h hne =>
    .inr ((ha h hne).resolve_right List.not_mem_nil)
  obtain ⟨s', ms, hx, hw, hawake, hlen⟩ := exec_writers (ε := ε) s.turns.order
    (s := { s with turns := {} }) hlast hstart
  rw [runTurns, Act.exec_bind_ok (Act.exec_get s), Act.exec_bind_ok (Act.exec_modify _ s)]
  refine ⟨s', ms, hx, ⟨hw.moves, hw.work, hw.closed, hw.later⟩, hawake, fun h => ?_⟩
  refine Nat.le_trans (hlen h) ?_
  split
  · exact Nat.le_refl _
  · next hnot =>
    -- a writer that sleeps has nothing to do
    have hnil : inbox s.queues h = [] := by
      by_contra hne
      exact hnot ((ha h hne).resolve_right List.not_mem_nil)
    simp [hnil]

theorem exec_repeatTurns (count : Nat) {s : Services} (hlast : s.StopsLast) (ha : s.Awake []) :
    ∃ s' ms, (repeatTurns count : Act Services ε Unit).exec s = (.ok (), s') ∧ s.Handles ms s' ∧
      s'.Awake [] ∧ ∀ h, (inbox s'.queues h).length ≤
        (inbox s.queues h).length - Queue.burst * count := by
  induction count generalizing s with
  | zero => exact ⟨s, [], rfl, .of_desk rfl, ha, fun h => Nat.le_refl _⟩
  | succ count ih =>
    obtain ⟨s₁, ms, hx, hw, hawake, hlen⟩ := exec_runTurns (ε := ε) hlast ha
    obtain ⟨s', ms', hx', hw', hawake', hlen'⟩ := ih (hw.stopsLast hlast) hawake
    refine ⟨s', ms ++ ms', ?_, hw.trans hw', hawake', fun h => ?_⟩
    · rw [repeatTurns, Act.exec_bind_ok hx, hx']
    · have hh := hlen h
      have hh' := hlen' h
      rw [Nat.mul_add_one]
      omega

/-! ## Between calls -/

/-- Wherever a message waits, a writer is awake, and no writer is told to stop. -/
structure AtWork (s : Services) : Prop where
  awake : s.Awake []
  unstopped : ∀ h, .stop ∉ inbox s.queues h

theorem AtWork.stopsLast (h : s.AtWork) : s.StopsLast := fun i _ hrest =>
  absurd (hrest.subset List.mem_cons_self) (h.unstopped i)

/-- Then no queue is closed by writers. -/
theorem AtWork.not_closed (h : s.AtWork) (hw : s.Handles ms s') (i : Nat) : .close i ∉ ms :=
  fun hm => h.unstopped i ((hw.closed i).1 hm).1

theorem AtWork.after (h : s.AtWork) (hw : s.Handles ms s') (ha : s'.Awake []) : s'.AtWork :=
  ⟨ha, fun i hm => h.unstopped i ((hw.later i).subset hm)⟩

theorem AtWork.not_mem (h : s.AtWork) {i : Nat} (hq : s.queues[i]? = some q) :
    .stop ∉ q.messages :=
  Queue.inbox_eq hq ▸ h.unstopped i

/-- A writer that gets a message is awake. -/
theorem awake_push (ha : s.Awake []) (hq : s.queues[h]? = some q) (m : Message) (origin : Origin) :
    { s with queues := s.queues.set h (q.push m), turns := s.turns.wake origin h }.Awake [] := by
  intro i hne
  rw [Queue.inbox_push hq] at hne
  refine .inl (Turns.mem_order_wake.2 ?_)
  by_cases hhi : h = i
  · exact .inl hhi.symm
  · rw [if_neg hhi] at hne
    exact .inr ((ha i hne).resolve_right List.not_mem_nil)

/-- A drain leaves nothing waiting. -/
theorem exec_runWriters (ha : s.AtWork) :
    ∃ s' ms, (runWriters : Act Services ε Unit).exec s = (.ok (), s') ∧ s.Handles ms s' ∧
      s'.Awake [] ∧ ∀ q ∈ s'.queues, q.messages = [] := by
  rw [runWriters, Act.exec_bind_ok (Act.exec_get s)]
  obtain ⟨s', ms, hx, hw, hawake, hlen⟩ := exec_repeatTurns (ε := ε) _ ha.stopsLast ha.awake
  refine ⟨s', ms, hx, hw, hawake, fun q' hq' => List.eq_nil_of_length_eq_zero ?_⟩
  obtain ⟨h, hlt, hget⟩ := List.mem_iff_getElem.1 hq'
  rw [hw.length_queues] at hlt
  have hbursts := s.queues[h].length_lt_bursts (Queue.bursts_le_foldl (List.getElem_mem hlt))
  have hh := hlen h
  rw [Queue.inbox_eq (List.getElem?_eq_some_iff.2 ⟨_, hget⟩),
    Queue.inbox_eq (List.getElem?_eq_getElem hlt)] at hh
  omega

/-- A notice is refused by a queue that is closed or full, else accepted. -/
theorem offer_step (hq : s.queues[h]? = some q) (ha : s.AtWork) (origin : Origin) (n : Notice) :
    ∃ s', (offer h origin n : Act Services ε Unit).exec s = (.ok (), s') ∧ s'.AtWork ∧
      (q.closed = true ∨ q.isFull = true → s.desk.Step (.refuse h n) s'.desk) ∧
      (¬ (q.closed = true ∨ q.isFull = true) → s.desk.Step (.accept h n) s'.desk) := by
  rw [offer, Act.exec_bind_ok (Act.exec_get s), hq]
  dsimp only
  by_cases hclosed : q.closed = true
  · rw [if_pos hclosed]
    exact ⟨_, rfl, ⟨ha.awake, ha.unstopped⟩, fun hno => .refuse n hq hno,
      fun hnot => absurd (.inl hclosed) hnot⟩
  · rw [if_neg hclosed]
    by_cases hfull : q.isFull = true
    · rw [if_pos hfull]
      exact ⟨_, rfl, ⟨ha.awake, ha.unstopped⟩, fun hno => .refuse n hq hno,
        fun hnot => absurd (.inr hfull) hnot⟩
    · rw [if_neg hfull]
      refine ⟨_, rfl, ⟨awake_push ha.awake hq _ origin, fun i => ?_⟩, fun hno => ?_, fun _ => ?_⟩
      · rw [Queue.inbox_push hq]
        split
        · simp [ha.not_mem hq]
        · exact ha.unstopped i
      · exact absurd hno (not_or.2 ⟨hclosed, hfull⟩)
      · exact .accept n hq (Bool.not_eq_true _ ▸ hclosed) (Bool.not_eq_true _ ▸ hfull)

/-- To shut a queue is to tell its writer to stop, and to let the writers work until it has closed
the queue. -/
theorem exec_shutQueue (hq : s.queues[h]? = some q) (ha : s.AtWork) :
    ∃ s' ms, (shutQueue h : Act Services ε Unit).exec s = (.ok (), s') ∧ s'.AtWork ∧
      s.desk.Moves ms s'.desk ∧
      (q.closed = true ∧ ms = [] ∨ ∃ work, (∀ m ∈ work, m.IsWork) ∧
        (∀ i, .close i ∈ work ↔ i = h) ∧ ms = .stop h :: work) := by
  rw [shutQueue, Act.exec_bind_ok (Act.exec_get s), hq]
  dsimp only
  by_cases hclosed : q.closed = true
  · rw [if_pos hclosed]
    exact ⟨s, [], rfl, ha, .nil, .inl ⟨hclosed, rfl⟩⟩
  · rw [if_neg hclosed, Act.exec_bind_ok (Act.exec_modify _ s)]
    have hstop := Desk.Step.stop (d := s.desk) hq (Bool.not_eq_true _ ▸ hclosed)
    have hlast : StopsLast { s with
        queues := s.queues.set h (q.push .stop), turns := s.turns.wake .direct h } := by
      intro i rest hrest
      rw [Queue.inbox_push hq] at hrest
      split at hrest
      · exact Message.stop_last (ha.not_mem hq) hrest
      · exact ha.stopsLast i rest hrest
    obtain ⟨s', ms, hx, hw, hawake, hlen⟩ :=
      exec_repeatTurns (ε := ε) q.bursts hlast (awake_push ha.awake hq .stop .direct)
    -- the word to stop is within the bursts
    have hnil : inbox s'.queues h = [] := by
      have hbursts := q.length_lt_bursts (Nat.le_refl _)
      have hh := hlen h
      rw [Queue.inbox_push hq, if_pos rfl, List.length_append, List.length_singleton] at hh
      exact List.eq_nil_of_length_eq_zero (by omega)
    have hothers : ∀ i, h ≠ i → .stop ∉ inbox (s.queues.set h (q.push .stop)) i := by
      intro i hi
      rw [Queue.inbox_push hq, if_neg hi]
      exact ha.unstopped i
    refine ⟨s', .stop h :: ms, hx, ⟨hawake, fun i hm => ?_⟩, hstop.moves.append hw.moves,
      .inr ⟨ms, hw.work, fun i => ?_, rfl⟩⟩
    · by_cases hi : h = i
      · rw [← hi, hnil] at hm
        cases hm
      · exact hothers i hi ((hw.later i).subset hm)
    · rw [hw.closed]
      refine ⟨fun hm => ?_, ?_⟩
      · by_contra hi
        exact hothers i (Ne.symm hi) hm.1
      · rintro rfl
        rw [Queue.inbox_push hq, if_pos rfl, hnil]
        simp

end Services

/-! ## Deeds -/

open Services

/-- What may be done to queues of notices. -/
inductive Deed where
  /-- A queue is opened. -/
  | spawn (capacity : Nat)
  /-- A notice is offered to queue `h`. -/
  | resolve (h : Nat) (origin : Origin) (n : Notice)
  /-- Every writer that is awake runs once. -/
  | turn
  /-- The writers run until all queues are empty. -/
  | drain
  /-- Queue `h` is shut. -/
  | shutdown (h : Nat)
  /-- The rows become available or not. -/
  | outage (switch : Switch)

namespace Deed

/-- The call of the services. -/
def act : Deed → Act Services OpenFault Unit
  | spawn capacity => discard (openQueue capacity)
  | resolve h origin n => offer h origin n
  | turn => runTurns
  | drain => runWriters
  | shutdown h => shutQueue h
  | outage switch => modify fun s => { s with rows := { s.rows with switch } }

/-- The queue that the deed is about is there. -/
def Fits (s : Services) : Deed → Prop
  | resolve h .. | shutdown h => h < s.queues.length
  | spawn _ | turn | drain | outage _ => True

instance (s : Services) : (d : Deed) → Decidable (d.Fits s)
  | resolve h .. | shutdown h => inferInstanceAs (Decidable (h < s.queues.length))
  | spawn _ | turn | drain | outage _ => inferInstanceAs (Decidable True)

/-- The notice that is offered, and to which queue. -/
def offered? : Deed → Option (Nat × Notice)
  | resolve h _ n => some (h, n)
  | spawn _ | turn | drain | shutdown _ | outage _ => none

/-- The capacity of the queue that is opened. -/
def opened? : Deed → Option Nat
  | spawn capacity => if Queue.isOversized capacity then none else some capacity
  | resolve .. | turn | drain | shutdown _ | outage _ => none

end Deed

namespace Services

/-- The services after one deed after the other. -/
def after : Services → List Deed → Services
  | s, [] => s
  | s, d :: ds => (d.act.exec s).2.after ds

/-- Every deed is about a queue that is there by then. -/
def Admits : Services → List Deed → Prop
  | _, [] => True
  | s, d :: ds => d.Fits s ∧ (d.act.exec s).2.Admits ds

instance decidableAdmits : (s : Services) → (ds : List Deed) → Decidable (s.Admits ds)
  | _, [] => inferInstanceAs (Decidable True)
  | s, d :: ds =>
    have := decidableAdmits (d.act.exec s).2 ds
    inferInstanceAs (Decidable (d.Fits s ∧ (d.act.exec s).2.Admits ds))

/-- From `s` to `s'` the deeds come to the moves `ms`, and writers are at work after them. -/
structure Unfolds (s : Services) (ds : List Deed) (ms : List Move) (s' : Services) : Prop where
  moves : s.desk.Moves ms s'.desk
  offered : ms.filterMap Move.offered? = ds.filterMap Deed.offered?
  opened : ms.filterMap Move.opened? = ds.filterMap Deed.opened?
  closed : ∀ h, Queue.shut s.queues h = true ∨ .close h ∈ ms ↔
    Queue.shut s.queues h = true ∨ .shutdown h ∈ ds
  atWork : s'.AtWork

variable {s s' s'' : Services} {ds ds' : List Deed} {ms ms' : List Move} {d : Deed}

theorem Unfolds.trans (hu : s.Unfolds ds ms s') (hu' : s'.Unfolds ds' ms' s'') :
    s.Unfolds (ds ++ ds') (ms ++ ms') s'' where
  moves := hu.moves.append hu'.moves
  offered := by rw [List.filterMap_append, List.filterMap_append, hu.offered, hu'.offered]
  opened := by rw [List.filterMap_append, List.filterMap_append, hu.opened, hu'.opened]
  closed h := by
    have hnow : Queue.shut s'.queues h = true ↔ Queue.shut s.queues h = true ∨ .close h ∈ ms :=
      hu.moves.balanced.closed h
    have hnext := hu'.closed h
    rw [hnow, hu.closed] at hnext
    rw [List.mem_append, List.mem_append, ← or_assoc, ← or_assoc, hu.closed, hnext]
  atWork := hu'.atWork

/-- A deed that only lets writers work. -/
theorem Handles.unfolds (hw : s.Handles ms s') (hs : s.AtWork) (ha : s'.Awake [])
    (ho : d.offered? = none) (hp : d.opened? = none) (hc : ∀ h, d ≠ .shutdown h) :
    s.Unfolds [d] ms s' := by
  refine ⟨hw.moves, ?_, ?_, fun h => ?_, hs.after hw ha⟩
  · rw [Move.filterMap_work hw.work (fun _ _ _ => rfl) fun _ => rfl, List.filterMap_cons_none ho,
      List.filterMap_nil]
  · rw [Move.filterMap_work hw.work (fun _ _ _ => rfl) fun _ => rfl, List.filterMap_cons_none hp,
      List.filterMap_nil]
  · simp [hs.not_closed hw, Ne.symm (hc h)]

end Services

/-- Every deed is a list of moves, and leaves writers at work. -/
theorem Deed.unfolds (d : Deed) {s : Services} (hfit : d.Fits s) (ha : s.AtWork) :
    ∃ ms, s.Unfolds [d] ms (d.act.exec s).2 := by
  cases d with
  | spawn capacity =>
    cases hover : Queue.isOversized capacity with
    | true =>
      have hx : ((spawn capacity).act.exec s).2 = s := by
        simp [act, openQueue, Act.exec_discard, hover]
      rw [hx]
      exact ⟨[], .nil, rfl, by simp [opened?, hover], fun h => by simp, ha⟩
    | false =>
      have hx : ((spawn capacity).act.exec s).2 =
          { s with
            queues := s.queues ++ [{ capacity := capacity }]
            turns := s.turns.wake .direct s.queues.length } := by
        simp [act, openQueue, Act.exec_discard, hover, Act.exec_bind, Act.exec_map]
      rw [hx]
      refine ⟨_, (Desk.Step.create capacity).moves, rfl, by simp [opened?, hover, Move.opened?],
        fun h => by simp, fun h hne => .inl (Turns.mem_order_wake.2 (.inr ?_)), fun h => ?_⟩
      · rw [Queue.inbox_create] at hne
        exact (ha.awake h hne).resolve_right List.not_mem_nil
      · rw [Queue.inbox_create]
        exact ha.unstopped h
  | resolve h origin n =>
    have hq := List.getElem?_eq_getElem hfit
    obtain ⟨s', hx, hs', hrefuse, haccept⟩ := offer_step (ε := OpenFault) hq ha origin n
    rw [act, hx]
    by_cases hno : s.queues[h].closed = true ∨ s.queues[h].isFull = true
    · exact ⟨_, (hrefuse hno).moves, rfl, rfl, fun i => by simp, hs'⟩
    · exact ⟨_, (haccept hno).moves, rfl, rfl, fun i => by simp, hs'⟩
  | turn =>
    obtain ⟨s', ms, hx, hw, hawake, -⟩ := exec_runTurns (ε := OpenFault) ha.stopsLast ha.awake
    rw [act, hx]
    exact ⟨ms, hw.unfolds ha hawake rfl rfl (by simp)⟩
  | drain =>
    obtain ⟨s', ms, hx, hw, hawake, -⟩ := exec_runWriters (ε := OpenFault) ha
    rw [act, hx]
    exact ⟨ms, hw.unfolds ha hawake rfl rfl (by simp)⟩
  | shutdown h =>
    have hq := List.getElem?_eq_getElem hfit
    obtain ⟨s', ms, hx, hs', hmoves, ⟨hclosed, rfl⟩ | ⟨work, hwork, hcloses, rfl⟩⟩ :=
      exec_shutQueue (ε := OpenFault) hq ha
    · rw [act, hx]
      refine ⟨[], hmoves, rfl, rfl, fun i => ?_, hs'⟩
      by_cases hi : h = i
      · subst hi
        simp [Queue.shut_eq hq, hclosed]
      · simp [Ne.symm hi]
    · rw [act, hx]
      refine ⟨_, hmoves, ?_, ?_, fun i => ?_, hs'⟩
      · rw [List.filterMap_cons_none rfl, Move.filterMap_work hwork (fun _ _ _ => rfl) fun _ => rfl]
        rfl
      · rw [List.filterMap_cons_none rfl, Move.filterMap_work hwork (fun _ _ _ => rfl) fun _ => rfl]
        rfl
      · simp [hcloses]
  | outage switch =>
    exact ⟨_, (Desk.Step.outage switch).moves, rfl, rfl, fun i => by simp, ha.awake, ha.unstopped⟩

/-- There is no queue yet, and nothing was counted. -/
structure Services.Unqueued (s : Services) : Prop where
  queues : s.queues = []
  enqueued : s.counters.enqueued = 0
  dropped : s.counters.dropped = 0
  applied : s.counters.applied = 0

namespace Services

variable {s₀ s : Services} {ds : List Deed}

/-- Deeds are lists of moves. -/
theorem after_unfolds (hfit : s.Admits ds) (ha : s.AtWork) :
    ∃ ms, s.Unfolds ds ms (s.after ds) := by
  induction ds generalizing s with
  | nil => exact ⟨[], .nil, rfl, rfl, fun h => by simp, ha⟩
  | cons d ds ih =>
    obtain ⟨ms, hms⟩ := d.unfolds hfit.1 ha
    obtain ⟨ms', hms'⟩ := ih hfit.2 hms.atWork
    exact ⟨ms ++ ms', hms.trans hms'⟩

namespace Unqueued

variable (h₀ : s₀.Unqueued)
include h₀

theorem inbox (h : Nat) : Queue.inbox s₀.queues h = [] := by
  rw [Queue.inbox, h₀.queues, List.getElem?_nil]
  rfl

theorem waiting (h : Nat) : Queue.waiting s₀.queues h = [] := by
  rw [Queue.waiting, h₀.inbox]
  rfl

theorem atWork : s₀.AtWork :=
  ⟨fun h hne => absurd (h₀.inbox h) hne, fun h hm => by rw [h₀.inbox] at hm; cases hm⟩

theorem orderly : s₀.desk.Orderly := by
  have hdesk : s₀.desk.queues = [] := h₀.queues
  constructor <;> rw [hdesk] <;> exact List.forall_mem_nil _

end Unqueued

section

variable {ms : List Move} {h : Nat} {q : Queue} (h₀ : s₀.Unqueued) (hu : s₀.Unfolds ds ms s)
include h₀ hu

/-- The counters count moves. -/
theorem Unfolds.counts : s.counters.enqueued = ms.countP Move.isAccept ∧
    s.counters.dropped = ms.countP Move.isRefuse ∧
    s.counters.applied = ms.countP Move.isStored := by
  have hbooks := hu.moves.balanced
  refine ⟨hbooks.enqueued.trans ?_, hbooks.dropped.trans ?_, hbooks.applied.trans ?_⟩
  · rw [desk, h₀.enqueued, Nat.zero_add]
  · rw [desk, h₀.dropped, Nat.zero_add]
  · rw [desk, h₀.applied, Nat.zero_add]

/-- A queue is closed if it was shut. -/
theorem Unfolds.closed_iff (hq : s.queues[h]? = some q) :
    q.closed = true ↔ .shutdown h ∈ ds := by
  have hshut : Queue.shut s₀.queues h = false := by
    rw [Queue.shut, h₀.queues, List.getElem?_nil]
    rfl
  have hnow : Queue.shut s.queues h = true ↔ _ := hu.moves.balanced.closed h
  rw [Queue.shut_eq hq] at hnow
  exact hnow.trans ((hu.closed h).trans (by simp [hshut]))

theorem Unfolds.isFull_iff (hq : s.queues[h]? = some q) :
    q.isFull = true ↔ q.pending.length = max q.capacity 1 := by
  have hb := (hu.moves.orderly h₀.orderly).bounded q (List.mem_of_getElem? hq)
  rw [Queue.isFull, decide_eq_true_iff, ← Queue.map_pending (hu.atWork.not_mem hq), List.length_map]
  rw [Queue.bound] at hb ⊢
  exact ⟨Nat.le_antisymm hb, Nat.le_of_eq ∘ Eq.symm⟩

/-- What was accepted was handed over, or it waits. -/
theorem Unfolds.conserved (hq : s.queues[h]? = some q) :
    ms.filterMap (Move.accepted? h) = ms.filterMap (Move.handed? h) ++ q.pending := by
  have hconserved := hu.moves.balanced.conserved h
  rw [desk, desk, h₀.waiting, Queue.waiting_eq hq] at hconserved
  exact hconserved

end

/-- What holds of queue `h`, which is `q`, after the deeds `ds`, which came to the moves `ms`. -/
structure QueueBooks (s : Services) (ds : List Deed) (ms : List Move) (h : Nat) (q : Queue) :
    Prop where
  /-- No more waits than may. -/
  bounded : q.pending.length ≤ max q.capacity 1
  /-- Nothing waits but notices. -/
  notices : q.pending.map .notice = q.messages
  /-- What was accepted is what was handed to the rows, once each and in this order, and what still
  waits. -/
  conserved : ms.filterMap (Move.accepted? h) = ms.filterMap (Move.handed? h) ++ q.pending
  /-- When the queue was closed, all that it had accepted was handed over. -/
  emptied : ∀ before after, ms = before ++ .close h :: after →
    before.filterMap (Move.accepted? h) = before.filterMap (Move.handed? h)
  /-- A queue that was shut is empty. -/
  shut : .shutdown h ∈ ds → q.messages = []
  /-- It refuses a notice if it was shut or is full. -/
  refuses : .shutdown h ∈ ds ∨ q.pending.length = max q.capacity 1 → ∀ origin n,
    ∃ s', (offer h origin n : Act Services OpenFault Unit).exec s = (.ok (), s') ∧
      s.desk.Step (.refuse h n) s'.desk
  /-- Else it accepts it. -/
  accepts : ¬ (.shutdown h ∈ ds ∨ q.pending.length = max q.capacity 1) → ∀ origin n,
    ∃ s', (offer h origin n : Act Services OpenFault Unit).exec s = (.ok (), s') ∧
      s.desk.Step (.accept h n) s'.desk

/-- The books of the services `s` after the deeds `ds`, which came to the moves `ms`. -/
structure Books (s₀ : Services) (ds : List Deed) (ms : List Move) (s : Services) : Prop where
  moves : s₀.desk.Moves ms s.desk
  /-- The notices that were accepted or refused are those that were offered. -/
  offered : ms.filterMap Move.offered? = ds.filterMap Deed.offered?
  /-- Every one of them is counted. -/
  counted : s.counters.enqueued + s.counters.dropped = (ds.filterMap Deed.offered?).length
  enqueued : s.counters.enqueued = ms.countP Move.isAccept
  applied : s.counters.applied = ms.countP Move.isStored
  capacities : s.queues.map (·.capacity) = ds.filterMap Deed.opened?
  queue : ∀ h q, s.queues[h]? = some q → s.QueueBooks ds ms h q
  /-- No version of a key was changed in more than its marker. -/
  unmarked : ∀ key, (s.rows.versionsOf key).map RowVersion.unmarked =
    (s₀.rows.versionsOf key).map RowVersion.unmarked
  /-- The next drain leaves nothing waiting. -/
  drains : ∃ s', (runWriters : Act Services OpenFault Unit).exec s = (.ok (), s') ∧
    ∀ q ∈ s'.queues, q.messages = []

theorem Unfolds.queueBooks (h₀ : s₀.Unqueued) {ms : List Move} (hu : s₀.Unfolds ds ms s) {h : Nat}
    {q : Queue} (hq : s.queues[h]? = some q) : s.QueueBooks ds ms h q := by
  have hmem := List.mem_of_getElem? hq
  have horder := hu.moves.orderly h₀.orderly
  have hno : q.closed = true ∨ q.isFull = true ↔
      .shutdown h ∈ ds ∨ q.pending.length = max q.capacity 1 :=
    or_congr (hu.closed_iff h₀ hq) (hu.isFull_iff h₀ hq)
  refine ⟨horder.bounded q hmem, Queue.map_pending (hu.atWork.not_mem hq), hu.conserved h₀ hq,
    fun before after hsplit => ?_, fun hd => horder.emptied q hmem ((hu.closed_iff h₀ hq).2 hd),
    fun hrefused origin n => ?_, fun haccepted origin n => ?_⟩
  · have hhanded := hu.moves.handed_of_close hsplit
    rw [desk, h₀.waiting] at hhanded
    exact hhanded
  · obtain ⟨s', hx, -, hrefuse, -⟩ := offer_step (ε := OpenFault) hq hu.atWork origin n
    exact ⟨s', hx, hrefuse (hno.2 hrefused)⟩
  · obtain ⟨s', hx, -, -, haccept⟩ := offer_step (ε := OpenFault) hq hu.atWork origin n
    exact ⟨s', hx, haccept (mt hno.1 haccepted)⟩

/-- From services without queues on, after any course of deeds: every notice that was offered was
accepted or refused, and is counted so. No queue holds more than it may. What a queue accepted is
what was handed to the rows from it, once each and in this order, and what still waits in it; what
the rows stored is counted. A queue is closed once it is shut, and empty then: the word to stop went
behind all that it had accepted, and all of that was handed over before. It refuses a notice exactly
if it was shut or is full. No version of a key was changed in more than its marker. And the next
drain leaves nothing waiting. -/
theorem notices_conserved (h₀ : s₀.Unqueued) (hfit : s₀.Admits ds) (hs : s = s₀.after ds) :
    ∃ ms, s₀.Books ds ms s := by
  obtain ⟨ms, hms⟩ := after_unfolds hfit h₀.atWork
  rw [← hs] at hms
  have hbooks := hms.moves.balanced
  obtain ⟨henqueued, hdropped, happlied⟩ := hms.counts h₀
  refine ⟨ms, hms.moves, hms.offered, ?_, henqueued, happlied, ?_, fun h q => hms.queueBooks h₀,
    fun key => ?_, ?_⟩
  · rw [henqueued, hdropped, ← hms.offered, Move.length_offered]
  · have hcap := hbooks.capacities
    rw [hms.opened, desk, desk, h₀.queues] at hcap
    exact hcap
  · rw [← RowStore.versionsOf_unmarked, ← RowStore.versionsOf_unmarked]
    exact RowStore.versionsOf_congr hbooks.unmarked key
  · obtain ⟨s', _, hx, -, -, hempty⟩ := exec_runWriters (ε := OpenFault) hms.atWork
    exact ⟨s', hx, hempty⟩

/-! ## An outage -/

/-- That transaction `writer` rolled back, which wrote a row. -/
def rolledBackNotice (writer : TxnId) : Notice := ⟨[1], writer, .rolledBack⟩

/-- A row with three versions. -/
def writtenServices : Services where
  rows :=
    { versions :=
        [{ key := [1], writer := some 3 }, { key := [1], writer := some 2 },
          { key := [1], writer := some 1 }] }

/-- A queue for one notice. The second offer finds it full; what was accepted is handed over while
the rows do not answer. Then they do; what is offered after the queue was shut comes too late. -/
def outageDeeds : List Deed :=
  [.spawn 1, .resolve 0 .direct (rolledBackNotice 1), .resolve 0 .read (rolledBackNotice 2),
    .outage (.steady false), .drain, .outage (.steady true),
    .resolve 0 .direct (rolledBackNotice 3), .shutdown 0, .resolve 0 .direct (rolledBackNotice 1)]

/-- The general rule at these deeds: of four notices two were accepted, and both were handed over;
one was stored. The versions of the row are the same but for its marker. -/
theorem notices_conserved_outage :
    ∃ ms s, s = writtenServices.after outageDeeds ∧ writtenServices.desk.Moves ms s.desk ∧
      (ms.filterMap Move.offered?).length = 4 ∧ ms.countP Move.isAccept = 2 ∧
      ms.filterMap (Move.accepted? 0) = ms.filterMap (Move.handed? 0) ∧
      ms.countP Move.isStored = 1 ∧
      (s.rows.versionsOf [1]).map RowVersion.unmarked = writtenServices.rows.versionsOf [1] ∧
      (s.rows.versionsOf [1]).map (·.resolution) = [some .rolledBack, none, none] := by
  have hfit : writtenServices.Admits outageDeeds := by decide +kernel
  obtain ⟨ms, hbooks⟩ := notices_conserved ⟨rfl, rfl, rfl, rfl⟩ hfit rfl
  have hq : (writtenServices.after outageDeeds).queues[0]? =
      some { capacity := 1, closed := true } := by decide +kernel
  refine ⟨ms, _, rfl, hbooks.moves, ?_, ?_, ?_, ?_, ?_, ?_⟩
  · rw [hbooks.offered]
    rfl
  · rw [← hbooks.enqueued]
    decide +kernel
  · rw [(hbooks.queue 0 _ hq).conserved]
    exact List.append_nil _
  · rw [← hbooks.applied]
    decide +kernel
  · rw [hbooks.unmarked]
    rfl
  · decide +kernel

end Services

end NestedTxn

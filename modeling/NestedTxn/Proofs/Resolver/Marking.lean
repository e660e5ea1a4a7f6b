import NestedTxn.Proofs.Session.Calls

/-!
# Writing resolutions back changes nothing but markers

`Services.Marked`: from sane services, markers are written and queues are emptied; nothing else
changes, and the services stay sane. The writers do no more than that, in whatever order and however
far they run (`runWriters_marked`, `Database.shutdown_marked`).
-/

namespace NestedTxn

theorem RowStore.unmarked_resolve (r : RowStore) (key : Key) (writer : TxnId) (res : Resolution) :
    (r.resolve key writer res).versions.map RowVersion.unmarked =
      r.versions.map RowVersion.unmarked := by
  rw [resolve, List.map_map]
  refine List.map_congr_left fun v _ => ?_
  simp only [Function.comp_apply]
  split <;> rfl

namespace Services

variable {max : Nat} {s : Services}

/-- Markers are written, and queues are emptied. -/
def Marked (max : Nat) (s s' : Services) : Prop :=
  s.Sane max → s'.Sane max ∧ s'.ledger.txns = s.ledger.txns ∧ s.Alike s'

theorem Marked.refl (max : Nat) (s : Services) : Marked max s s := fun h => ⟨h, rfl, .refl s⟩

theorem Marked.trans (max : Nat) (s s' s'' : Services) (h : Marked max s s')
    (h' : Marked max s' s'') : Marked max s s'' := by
  intro hs
  obtain ⟨hs', ht, ha⟩ := h hs
  obtain ⟨hs'', ht', ha'⟩ := h' hs'
  exact ⟨hs'', ht'.trans ht, ha.trans ha'⟩

/-- Queues may be replaced by others that hold no more. -/
theorem marked_queues (turns : Turns) {queues : List Queue}
    (h : ∀ q ∈ queues, ∃ q₀ ∈ s.queues, ∀ n ∈ q.pending, n ∈ q₀.pending) :
    Marked max s { s with queues, turns } := by
  intro hs
  refine ⟨⟨hs.sound, hs.ledgerUp, hs.rowsUp, hs.versions, fun q hq n hn => ?_⟩, rfl,
    ⟨rfl, rfl, rfl, rfl, rfl⟩⟩
  obtain ⟨q₀, hq₀, hsub⟩ := h q hq
  exact hs.queued q₀ hq₀ n (hsub n hn)

theorem marked_of_looks {s s' : Services} (h : s.Looks s') : Marked max s s' := fun hs =>
  ⟨hs.reads h.reads, h.txns, h.reads.alike⟩

/-- Writing back a notice that is true changes nothing but markers, and never fails. -/
theorem exec_writeBack {ε : Type} {n : Notice} (hn : s.ledger.Resolves n.writer n.resolution)
    (hs : s.Sane max) :
    ∃ s', (writeBack n : Act Services ε Unit).exec s = (.ok (), s') ∧ s'.Sane max ∧
      s'.ledger.txns = s.ledger.txns ∧ s.Alike s' := by
  have hm := RowStore.exec_mark (r := s.nextRows) hs.rowsUp.on_advance n.key n.writer n.resolution
  rw [nextRows_poisoned] at hm
  cases hp : s.rows.poisoned with
  | true =>
    rw [if_pos hp] at hm
    have hs' : (s.withRows s.nextRows).Sane max := hs.withRows hs.rowsUp.advance hs.versions
    obtain ⟨hsane, ht, ha⟩ := marked_of_looks
      (reported_looks _ (.resolutionNotPersisted n.writer .poisoned)) hs'
    have ha' : s.Alike (s.withRows s.nextRows) := ⟨rfl, rfl, rfl, rfl, rfl⟩
    refine ⟨_, ?_, hsane, ht, ha'.trans ha⟩
    simp [writeBack, mark, Act.exec_bind, exec_onRows, hm]
  | false =>
    rw [if_neg (by simp [hp])] at hm
    have hs' : (s.withRows (s.nextRows.resolve n.key n.writer n.resolution)).Sane max := by
      refine hs.withRows hs.rowsUp.advance fun v hv => ?_
      obtain ⟨v₀, hv₀, rfl⟩ := List.mem_map.1 hv
      split
      · next hm =>
        obtain ⟨w, c, hw, hc, _⟩ := hs.versions v₀ hv₀
        refine ⟨n.writer, c, hm.2, ?_, fun r hr => ?_⟩
        · rw [hm.2] at hw
          exact Option.some.inj hw ▸ hc
        · exact Option.some.inj hr ▸ hn
      · exact hs.versions v₀ hv₀
    have ha : s.Alike (s.withRows (s.nextRows.resolve n.key n.writer n.resolution)) :=
      ⟨rfl, rfl, (RowStore.unmarked_resolve _ _ _ _).symm, rfl, rfl⟩
    obtain ⟨hsane, ht, ha'⟩ := marked_of_looks (.trans _ _ _
      (reported_looks _ (.resolutionStored n.writer n.resolution)) (counted_looks _ .applied)) hs'
    refine ⟨_, ?_, hsane, ht, ha.trans ha'⟩
    simp [writeBack, mark, Act.exec_bind, exec_onRows, hm]

/-! ## Writers -/

/-- A queue may be replaced by one that holds no more. -/
theorem marked_set {h : Nat} {q q' : Queue} (hq : s.queues[h]? = some q)
    (hsub : ∀ n ∈ q'.pending, n ∈ q.pending) (turns : Turns) :
    Marked max s { s with queues := s.queues.set h q', turns } := by
  refine marked_queues turns fun u hu => ?_
  rcases List.mem_or_eq_of_mem_set hu with hu | rfl
  · exact ⟨u, hu, fun _ => id⟩
  · exact ⟨q, List.mem_of_getElem? hq, hsub⟩

theorem work_marked {ε : Type} (max h budget : Nat) :
    Act.Keeps (Marked max) (work h budget : Act Services ε Unit) := by
  induction budget with
  | zero => exact fun s => marked_queues _ fun q hq => ⟨q, hq, fun _ => id⟩
  | succ budget ih =>
    intro s
    rw [work, Act.exec_bind_ok (Act.exec_get s)]
    cases hq : s.queues[h]? with
    | none => exact .refl max s
    | some q =>
      dsimp only
      split
      · exact .refl max s
      · next n rest hm =>
        intro hs
        have htrue : s.ledger.Resolves n.writer n.resolution :=
          hs.queued q (List.mem_of_getElem? hq) n (Queue.mem_pending.2 (by simp [hm]))
        have hrest : ∀ n ∈ { q with messages := rest }.pending, n ∈ q.pending := fun n hn => by
          rw [Queue.mem_pending, hm]
          exact List.mem_cons_of_mem _ (Queue.mem_pending.1 hn)
        obtain ⟨hs₁, ht₁, ha₁⟩ := marked_set hq hrest s.turns hs
        obtain ⟨s₂, hw, hs₂, ht₂, ha₂⟩ := exec_writeBack (ε := ε) (htrue.of_txns ht₁) hs₁
        rw [Act.exec_bind_ok (Act.exec_modify _ s), Act.exec_bind_ok hw]
        have hall : Marked max s s₂ := fun _ => ⟨hs₂, ht₂.trans ht₁, ha₁.trans ha₂⟩
        exact Marked.trans _ _ _ _ hall (ih s₂) hs
      · exact marked_set hq (by simp) s.turns

theorem runTurns_marked {ε : Type} (max : Nat) :
    Act.Keeps (Marked max) (runTurns : Act Services ε Unit) := by
  intro s
  rw [runTurns, Act.exec_bind_ok (Act.exec_get s), Act.exec_bind_ok (Act.exec_modify _ s)]
  exact .trans _ _ _ _ (marked_queues _ fun q hq => ⟨q, hq, fun _ => id⟩)
    (Act.Keeps.forM (.refl max) (.trans max) (fun h => work_marked max h _) _ _)

theorem repeatTurns_marked {ε : Type} (max count : Nat) :
    Act.Keeps (Marked max) (repeatTurns count : Act Services ε Unit) := by
  induction count with
  | zero => exact .refl max
  | succ count ih => exact .bind (.trans max) (runTurns_marked max) fun _ => ih

/-- Letting the writers run changes nothing but markers. -/
theorem runWriters_marked {ε : Type} (max : Nat) :
    Act.Keeps (Marked max) (runWriters : Act Services ε Unit) :=
  .bind (.trans max) (.refl max) fun _ => repeatTurns_marked max _

/-- Shutting a queue changes nothing but markers. -/
theorem shutQueue_marked {ε : Type} (max h : Nat) :
    Act.Keeps (Marked max) (shutQueue h : Act Services ε Unit) := by
  intro s
  rw [shutQueue, Act.exec_bind_ok (Act.exec_get s)]
  cases hq : s.queues[h]? with
  | none => exact .refl max s
  | some q =>
    dsimp only
    split
    · exact .refl max s
    · exact Act.Keeps.bind_at (.trans max) (marked_set hq (by simp) _) fun _ =>
        repeatTurns_marked max _

end Services

/-- Shutting a database down changes nothing but markers. -/
theorem Database.shutdown_marked {ε : Type} (db : Database) (max : Nat) :
    Act.Keeps (Services.Marked max) (db.shutdown : Act Services ε Unit) := by
  rw [shutdown]
  cases db.queue with
  | none => exact .refl max
  | some h => exact Services.shutQueue_marked max h

end NestedTxn

import NestedTxn.Proofs.Ledger.Permission
import NestedTxn.Proofs.Lifecycle.Runs
import NestedTxn.Proofs.Lifecycle.Throughout

/-!
# Write permission is closed upwards

* `Ledger.Opens l₀ l`: records of `l₀` permit at least as much in `l`, and what covers a table in
  `l` has ancestors that do. Every operation but an elevation keeps to this from the ledger that it
  starts from, after each of its calls of the ledger (`beginRoot_opens` and so on).
* `Ledger.Raises table l₀ l`: the same for an elevation, which adds `table` to destinations and does
  nothing else. It grants the outermost pending ancestor first, so that whoever gets the table has a
  parent that covers it already (`grants_raise`); `elevateUnder` leaves out the walk if the parent
  that it is given covers the table.
* `Lifecycle.permission_upClosed`: both in every run of the lifecycle.
-/

namespace NestedTxn

namespace Ledger

/-- Records of `l₀` permit at least as much in `l`, where permission is closed upwards. -/
structure Opens (l₀ l : Ledger) : Prop where
  widens : l₀.Widens l
  upClosed : l.UpClosed

/-- From `l₀` to `l` the table was added to destinations, and permission is closed upwards. -/
structure Raises (table : Table) (l₀ l : Ledger) : Prop where
  grants : Grants table l₀ l
  upClosed : l.UpClosed

variable {l₀ l l' : Ledger} {table : Table}

theorem Opens.of_txns (h : l₀.Opens l) (he : l'.txns = l.txns) : l₀.Opens l' :=
  ⟨h.widens.trans (.of_txns he), h.upClosed.of_txns he⟩

theorem Raises.of_txns (h : Raises table l₀ l) (he : l'.txns = l.txns) : Raises table l₀ l' :=
  ⟨h.grants.trans (.of_txns he), h.upClosed.of_txns he⟩

theorem Raises.opens (h : Raises table l₀ l) : l₀.Opens l := ⟨h.grants.widens, h.upClosed⟩

/-- A record that is finished permits what it did. -/
theorem Opens.finish (h : l₀.Opens l) {id : TxnId} {u : Txn} (hu : l.find? id = some u)
    (o : Outcome) : l₀.Opens (l.replace (u.finish o)) := by
  have hsame : ∀ other, (u.finish o).writableFor other = u.writableFor other := by
    intro other
    cases o <;> rfl
  have hparent : (u.finish o).parent = u.parent := by cases o <;> rfl
  rw [← id_of_find? hu, ← Txn.finish_id u o] at hu
  refine ⟨h.widens.trans (widens_replace hu ?_), h.upClosed.replace hu hparent ?_ ?_⟩
  · exact fun other hw => (hsame other).trans hw
  · exact fun other hw => (hsame other).trans hw
  · exact fun other p _ hw => .inl ((hsame other).symm.trans hw)

/-- A table is added to a record whose parent, if it has one, covers it. -/
theorem Raises.grant (h : Raises table l₀ l) {id : TxnId} {u : Txn} (hu : l.find? id = some u)
    (hp : ∀ p, u.parent = some p → l.Covers table p) :
    Raises table l₀ (l.replace (u.grant table)) := by
  refine ⟨h.grants.trans (grants_replace hu), ?_⟩
  rw [← id_of_find? hu] at hu
  refine h.upClosed.replace (u := u.grant table) hu rfl ?_ ?_
  · exact fun other hw => Txn.writableFor_grant.2 (.inr hw)
  · intro other p hpar hw
    rcases Txn.writableFor_grant.1 hw with rfl | hold
    · exact .inr (hp p hpar)
    · exact .inl hold

end Ledger

namespace Lifecycle

open Services

variable {config : Config} {s : Services} {t u : Txn} {table : Table}

/-! ## New transactions and ends -/

/-- The destination of a single table, if it passes, covers only what passes. -/
theorem covers_filtered {pass : Table → Bool} {destination : Option Table} {other : Table}
    (h : ((destination.filter pass).map Destination.of).any (·.covers other) = true) :
    pass other = true := by
  cases destination with
  | none => cases h
  | some d =>
    by_cases hd : pass d = true
    · obtain rfl : other = d := by simpa [Option.filter, hd] using h
      exact hd
    · simp [Option.filter, hd] at h

theorem beginRoot_opens (h : s.ledger.UpClosed) (isolation : Isolation) :
    Throughout s.ledger.Opens (beginRoot isolation) s := by
  refine .bind .tick fun ts s₁ ht => ?_
  obtain ⟨-, rfl⟩ := tick_ok ht
  refine .bind (.of_create ⟨.of_txns rfl, h.of_txns rfl⟩ fun hf => ?_) fun _ _ _ =>
    .bind .count fun _ _ _ => .bind .report fun _ _ _ => .pure
  refine ⟨Ledger.widens_insert hf, (h.of_txns rfl).insert hf ?_⟩
  rintro other p hp
  cases hp

/-- A child is born writable only for a table that its parent, as given, covers. -/
theorem beginChild_opens (h : s.ledger.UpClosed) {parent : Txn}
    (hp : ∀ other, parent.writableFor other = true → s.ledger.Covers other parent.id)
    (isolation : Option Isolation) (additive : Bool) (destination : Option Table) :
    Throughout s.ledger.Opens (beginChild config parent isolation additive destination) s := by
  refine .bind (demandActive_throughout parent) fun _ s₁ hd => ?_
  obtain rfl := demandActive_same hd
  split
  · exact .bind .throw fun _ _ hx => by cases hx
  · refine .bind .tick fun ts s₂ ht => ?_
    obtain ⟨-, rfl⟩ := tick_ok ht
    refine .bind (.of_create ⟨.of_txns rfl, h.of_txns rfl⟩ fun hf => ?_) fun _ _ _ =>
      .bind .count fun _ _ _ => .bind .report fun _ _ _ => .pure
    refine ⟨Ledger.widens_insert hf, (h.of_txns rfl).insert hf ?_⟩
    intro other p hpar hw
    cases hpar
    exact hp other (covers_filtered hw)

theorem commit_opens (h : s.ledger.UpClosed) (t : Txn) :
    Throughout s.ledger.Opens (commit config t) s := by
  have hstart : s.ledger.Opens s.ledger := ⟨.refl _, h⟩
  rw [commit_eq]
  refine .bind (demandActive_throughout t) fun _ s₁ hd => ?_
  obtain rfl := demandActive_same hd
  refine .bind .tick fun ts s₂ ht => ?_
  obtain ⟨-, rfl⟩ := tick_ok ht
  have hwalk : Throughout s₁.ledger.Opens (commitGlobal config t ts) s₁.ticked :=
    commitGlobal_throughout (s := s₁.ticked) (fun _ _ he ho => ho.of_txns he) hstart config t ts
  refine .bind hwalk fun globalTs s₃ hg => ?_
  have hlook := commitGlobal_looks config t ts s₁.ticked
  rw [hg] at hlook
  have hnow : s₁.ledger.Opens s₃.nextLedger := hstart.of_txns hlook.txns
  refine .bind (.map (.of_update hnow fun u hu _ => hnow.finish hu _) _) fun _ _ _ =>
    .bind .count fun _ _ _ => .bind .report fun _ _ _ => .pure

theorem rollback_opens (h : s.ledger.UpClosed) (t : Txn) :
    Throughout s.ledger.Opens (rollback t) s := by
  have hnow : s.ledger.Opens s.nextLedger := ⟨.of_txns rfl, h.of_txns rfl⟩
  unfold rollback
  cases t.state with
  | rolledBack => exact .pure
  | committed => exact .throw
  | active =>
    refine .bind (.attempt (.of_update hnow fun u hu _ => hnow.finish hu _)) fun r _ _ => ?_
    split
    · exact .bind .count fun _ _ _ => .report
    · exact .pure
    · exact .throw

/-! ## Elevations -/

section

variable {l₀ : Ledger}

/-- A table is granted to a record whose parent covers it. -/
theorem grant_raises (h : Ledger.Raises table l₀ s.ledger) (hu : s.ledger.find? t.id = some u)
    (hp : ∀ p, u.parent = some p → s.ledger.Covers table p) :
    Throughout (Ledger.Raises table l₀) (grant t table) s := by
  have hnow : Ledger.Raises table l₀ s.nextLedger := h.of_txns rfl
  refine .bind (.of_update hnow fun v hv _ => ?_) fun _ _ _ => ?_
  · rw [hu] at hv
    cases hv
    have hfound : s.nextLedger.find? t.id = some u := hu
    exact hnow.grant hfound fun p hpar => (hp p hpar).widens (.of_txns rfl)
  · split
    · exact .bind .count fun _ _ _ => .bind .report fun _ _ _ => .pure
    · exact .bind .report fun _ _ _ => .pure

/-- A granted table is covered. -/
theorem grant_covers {t' : Txn} {s' : Services} (h : (grant t table).exec s = (.ok t', s')) :
    s'.ledger.Covers table t.id := by
  rcases grant_cases t table s with ⟨e, s₁, he, _⟩ | ⟨u, s₁, hu, _, he, hs, _⟩
  · rw [he] at h
    cases h
  · rw [he] at h
    cases h
    refine ⟨u.grant table, ?_, Txn.writableFor_grant.2 (.inl rfl)⟩
    rw [hs.find? t.id, Ledger.find?_replace, Txn.grant_id, Ledger.id_of_find? hu, if_pos rfl, hu]
    rfl

/-- The pending ancestors are granted the table outermost first: whoever gets it has a parent that
covers it already. In the end all of them cover it. -/
theorem grants_raise {next : Option TxnId} {c pending : List Txn}
    (h : Ledger.Raises table l₀ s.ledger) (hc : s.ledger.Above next c)
    (hpending : pending = c.takeWhile fun a => !a.writableFor table) :
    Throughout (Ledger.Raises table l₀)
        (pending.reverse.forM fun a => discard (grant a table)) s ∧
      ∀ x s', (pending.reverse.forM fun a => discard (grant a table)).exec s = (.ok x, s') →
        ∀ p, next = some p → s'.ledger.Covers table p := by
  induction c generalizing next pending with
  | nil =>
    subst hpending
    refine ⟨.pure, ?_⟩
    rintro x s' _ p rfl
    obtain ⟨_, _, hnil, _⟩ := Ledger.Chain.eq_cons hc
    cases hnil
  | cons a c ih =>
    cases next with
    | none => cases hc
    | some id =>
      have hchain : s.ledger.Chain id (a :: c) := hc
      by_cases hw : a.writableFor table = true
      · obtain rfl : pending = [] := by simpa [hw] using hpending
        refine ⟨.pure, ?_⟩
        rintro x s' hx p hp
        cases hx
        cases hp
        exact ⟨a, hchain.find?_head, hw⟩
      · obtain ⟨rest, rfl, hrest⟩ : ∃ rest, pending = a :: rest ∧
            rest = c.takeWhile fun a => !a.writableFor table :=
          ⟨_, by simpa [hw] using hpending, rfl⟩
        obtain ⟨habove, hcovered⟩ := ih hchain.above hrest
        have hsplit : ((a :: rest).reverse.forM fun a => discard (grant a table)) =
            (rest.reverse.forM fun a => discard (grant a table)) >>= fun _ =>
              discard (grant a table) := by
          simp
        rw [hsplit]
        refine ⟨.bind habove fun _ s₁ h₁ => .map ?_ _, ?_⟩
        · have hnow := habove.final h
          have hre := grants_regrants table rest.reverse s
          rw [h₁] at hnow hre
          obtain ⟨u, hu, hbare⟩ := hre.find? hchain.find?_head
          rw [← hchain.id_head] at hu
          refine grant_raises hnow hu fun p hpar => hcovered _ s₁ h₁ p ?_
          rw [← hpar]
          exact Txn.parent_of_origin (Txn.origin_of_bare hbare.symm)
        · rintro x s' hx p hp
          cases hp
          obtain ⟨_, s₁, _, hx⟩ := Act.exec_bind_eq_ok hx
          obtain ⟨t', ht', -⟩ := Act.exec_map_eq_ok hx
          rw [← hchain.id_head]
          exact grant_covers ht'

end

section

variable (hs : s.ledger.Sound config.maxAncestorDepth.toNat) (hclosed : s.ledger.UpClosed)
  (hu : s.ledger.find? t.id = some u) (ho : u.origin = t.origin)
include hs hclosed hu ho

theorem elevate_raises :
    Throughout (Ledger.Raises table s.ledger) (elevate config t table) s := by
  have hstart : Ledger.Raises table s.ledger s.ledger := ⟨.refl _ _, hclosed⟩
  unfold elevate
  split
  · exact .pure
  refine .bind (demandActive_throughout t) fun _ s₁ hd => ?_
  obtain rfl := demandActive_same hd
  obtain ⟨c, hc⟩ := hs.chain hu
  have habove := hc.above
  rw [Txn.parent_of_origin ho] at habove
  refine .bind (uncovered_throughout (fun _ _ he hr => hr.of_txns he) hstart)
    fun pending s₂ h₂ => ?_
  have hlook := uncovered_looks table config.maxAncestorDepth.toNat [] t.parent s₁
  rw [h₂] at hlook
  have hnow : Ledger.Raises table s₁.ledger s₂.ledger := hstart.of_txns hlook.txns
  obtain ⟨hgrants, hcovered⟩ :=
    grants_raise hnow (habove.of_txns hlook.txns) (uncovered_ok habove h₂)
  refine .bind hgrants fun x s₃ h₃ => ?_
  -- the record itself has changed in its destination only
  have hre := grants_regrants table pending.reverse s₂
  have hlast := hgrants.final hnow
  rw [h₃] at hre hlast
  obtain ⟨v, hv, hbare⟩ := (hlook.regrants.trans _ _ _ hre).find? hu
  refine grant_raises hlast hv fun p hpar => hcovered x s₃ h₃ p ?_
  rw [← hpar, ← Txn.parent_of_origin ho]
  exact (Txn.parent_of_origin (Txn.origin_of_bare hbare)).symm

/-- Below a parent that covers the table no other ancestor needs a look. -/
theorem elevateUnder_raises {parent : Option Txn}
    (hp : ∀ p ∈ parent, p.writableFor table = true → s.ledger.Covers table p.id) :
    Throughout (Ledger.Raises table s.ledger) (elevateUnder config t table parent) s := by
  unfold elevateUnder
  split
  · exact .pure
  · split
    · next hunder =>
      refine .bind (demandActive_throughout t) fun _ s₁ hd => ?_
      obtain rfl := demandActive_same hd
      refine grant_raises ⟨.refl _ _, hclosed⟩ hu fun p hpar => ?_
      obtain ⟨q, hq, hqt⟩ := (Option.any_eq_true _ _).1 hunder
      simp only [Bool.and_eq_true, decide_eq_true_eq] at hqt
      obtain ⟨hparent, hcov⟩ := hqt
      rw [Txn.parent_of_origin ho, hparent] at hpar
      cases hpar
      exact hp q hq hcov
    · exact elevate_raises hs hclosed hu ho

end

/-! ## Answers of elevations -/

section

variable {t' : Txn} {s' : Services} (hcov : t.writableFor table = true → s.ledger.Covers table t.id)
include hcov

theorem elevate_covers (h : (elevate config t table).exec s = (.ok t', s')) :
    s'.ledger.Covers table t.id := by
  rw [elevate] at h
  split at h
  · next hw =>
    cases h
    exact hcov hw
  · obtain ⟨_, s₁, _, h⟩ := Act.exec_bind_eq_ok h
    obtain ⟨pending, s₂, _, h⟩ := Act.exec_bind_eq_ok h
    obtain ⟨_, s₃, _, h⟩ := Act.exec_bind_eq_ok h
    exact grant_covers h

theorem elevateUnder_covers {parent : Option Txn}
    (h : (elevateUnder config t table parent).exec s = (.ok t', s')) :
    s'.ledger.Covers table t.id := by
  rw [elevateUnder] at h
  split at h
  · next hw =>
    cases h
    exact hcov hw
  · split at h
    · obtain ⟨_, s₁, _, h⟩ := Act.exec_bind_eq_ok h
      exact grant_covers h
    · exact elevate_covers hcov h

end

/-! ## Runs -/

/-- Permission is closed upwards, and a record permits what any copy of it permitted. -/
structure World.Permits (w : World) : Prop where
  upClosed : w.ledger.UpClosed
  known : ∀ t ∈ w.known, ∀ table, t.writableFor table = true → w.ledger.Covers table t.id

/-- The transaction that a call elevates, and the table. -/
def Call.elevated? : Call → Option (Txn × Table)
  | .elevate t table | .elevateUnder t table _ => some (t, table)
  | .beginRoot _ | .beginChild .. | .commit _ | .rollback _ => none

section

variable {w w' : World} (hw : w.Genuine config.maxAncestorDepth.toNat) (hp : w.Permits)
include hw hp

/-- An elevation adds its table to destinations, and permission stays closed upwards. -/
theorem Call.run_raises {c : Call} (hc : ∀ t ∈ c.subjects, t ∈ w.known) {t : Txn} {table : Table}
    (hel : c.elevated? = some (t, table)) :
    Throughout (Ledger.Raises table w.ledger) (c.run config) w.services := by
  cases c with
  | beginRoot | beginChild | commit | rollback => cases hel
  | elevate t table =>
    cases hel
    obtain ⟨u, hu, htu⟩ := hw.known t (hc t (by simp [Call.subjects]))
    exact (elevate_raises hw.sound hp.upClosed hu htu.origin).map _
  | elevateUnder t table parent =>
    cases hel
    obtain ⟨u, hu, htu⟩ := hw.known t (hc t (by simp [Call.subjects]))
    refine (elevateUnder_raises hw.sound hp.upClosed hu htu.origin fun p hpar => ?_).map _
    exact hp.known p (hc p (by simp_all [Call.subjects])) table

omit hw in
/-- The transaction that was elevated covers the table. -/
theorem Call.run_covers {c : Call} (hc : ∀ t ∈ c.subjects, t ∈ w.known) {t : Txn} {table : Table}
    (hel : c.elevated? = some (t, table)) {ts : List Txn} {s : Services}
    (h : (c.run config).exec w.services = (.ok ts, s)) : s.ledger.Covers table t.id := by
  cases c with
  | beginRoot | beginChild | commit | rollback => cases hel
  | elevate t table =>
    cases hel
    obtain ⟨_, ht, -⟩ := Act.exec_map_eq_ok h
    exact elevate_covers (hp.known t (hc t (by simp [Call.subjects])) table) ht
  | elevateUnder t table parent =>
    cases hel
    obtain ⟨_, ht, -⟩ := Act.exec_map_eq_ok h
    exact elevateUnder_covers (hp.known t (hc t (by simp [Call.subjects])) table) ht

/-- After every single call of the ledger records permit at least as much as they did, and
permission is closed upwards. -/
theorem Call.run_opens {c : Call} (hc : ∀ t ∈ c.subjects, t ∈ w.known) :
    Throughout w.ledger.Opens (c.run config) w.services := by
  cases c with
  | beginRoot isolation => exact (beginRoot_opens hp.upClosed isolation).map _
  | beginChild parent isolation additive destination =>
    refine (beginChild_opens hp.upClosed ?_ isolation additive destination).map _
    exact hp.known parent (hc parent (by simp [Call.subjects]))
  | elevate | elevateUnder => exact (Call.run_raises hw hp hc rfl).mono fun _ h => h.opens
  | commit t => exact (commit_opens hp.upClosed t).map _
  | rollback t => exact (rollback_opens hp.upClosed t).map _

theorem Step.permits (h : Step config w w') : w'.Permits := by
  cases h with
  | @copy id t ht =>
    refine ⟨hp.upClosed, fun u hu table hcov => ?_⟩
    rcases List.mem_cons.1 hu with rfl | hu
    · rw [← Ledger.id_of_find? ht] at ht
      exact ⟨u, ht, hcov⟩
    · exact hp.known u hu table hcov
  | @call c hc =>
    have hopens := (Call.run_opens hw hp hc).final ⟨.refl _, hp.upClosed⟩
    -- what was known before is covered as it was
    have hold : ∀ t ∈ w.known, ∀ table, t.writableFor table = true →
        (w.after config c).ledger.Covers table t.id :=
      fun t ht table hcov => (hp.known t ht table hcov).widens hopens.widens
    refine ⟨hopens.upClosed, fun t ht table hcov => ?_⟩
    rcases hr : (c.run config).exec w.services with ⟨e | ts, s'⟩
    · exact hold t (by simpa [World.after, hr, Except.toOption] using ht) table hcov
    · rcases List.mem_append.1 ht with ht | ht
      · rw [hr] at ht
        rcases Call.run_answer hr ht with hgiven | hfound
        · exact hold t (hc t hgiven) table hcov
        · exact ⟨t, by simpa [World.after, World.ledger, hr] using hfound, hcov⟩
      · exact hold t ht table hcov

end

theorem Reach.permits {w₀ w : World} (h₀ : w₀.Fresh) (h : Reach config w₀ w) : w.Permits := by
  induction h with
  | refl =>
    refine ⟨?_, fun t ht => ?_⟩
    · rintro table id a _ ⟨t, ht, _⟩
      have hnone : w₀.ledger.find? id = none := by simp [Ledger.find?, h₀.txns]
      rw [hnone] at ht
      cases ht
    · rw [h₀.known] at ht
      cases ht
  | tail hreach step ih => exact step.permits (Reach.genuine hreach h₀) ih

/-- In every run write permission is closed upwards, and it stays so after every single call of
the ledger that an operation makes. An elevation changes nothing but the destinations that it adds
the table to, and if it answers, the transaction and all its ancestors cover the table. -/
theorem permission_upClosed {w₀ w : World} (h₀ : w₀.Fresh) (h : Reach config w₀ w) :
    w.ledger.UpClosed ∧ ∀ c : Call, (∀ t ∈ c.subjects, t ∈ w.known) →
      Throughout Ledger.UpClosed (c.run config) w.services ∧
      ∀ t table, c.elevated? = some (t, table) →
        Throughout (Ledger.Grants table w.ledger) (c.run config) w.services ∧
        ∀ x s, (c.run config).exec w.services = (x, s) →
          Ledger.Grants table w.ledger s.ledger ∧
          ∀ ts, x = .ok ts → s.ledger.Covers table t.id ∧
            ∀ a, s.ledger.Ancestor t.id a → s.ledger.Covers table a := by
  have hw := h.genuine h₀
  have hp := h.permits h₀
  refine ⟨hp.upClosed, fun c hc => ⟨(Call.run_opens hw hp hc).mono fun _ ho => ho.upClosed, ?_⟩⟩
  intro t table hel
  have hraises := Call.run_raises hw hp hc hel
  refine ⟨hraises.mono fun _ hr => hr.grants, ?_⟩
  rintro x s hx
  have hend := hraises.final ⟨.refl _ _, hp.upClosed⟩
  rw [hx] at hend
  refine ⟨hend.grants, ?_⟩
  rintro ts rfl
  have hcov := Call.run_covers hp hc hel hx
  exact ⟨hcov, fun a ha => hend.upClosed table t.id a ha hcov⟩

/-! ## A child that is elevated -/

/-- A root and a child of it, both read-only. -/
def readOnlyWorld : World :=
  (World.empty.after {} (.beginRoot .snapshot)).after {}
    (.beginChild (.root 1 1 .snapshot) none false none)

/-- The child as it was handed out. -/
def readOnlyChild : Txn := .child 2 2 (.root 1 1 .snapshot) .snapshot false none

theorem readOnlyChild_known : readOnlyChild ∈ readOnlyWorld.known := by decide

theorem reach_readOnlyWorld : Reach {} World.empty readOnlyWorld := by
  refine .tail (.tail .refl (.call ?_)) (.call ?_)
  · intro t ht
    cases ht
  · intro t ht
    obtain rfl := List.mem_singleton.1 ht
    decide

/-- The general rule at an elevation of the child: the root gets the table before it. -/
theorem permission_upClosed_child :
    readOnlyWorld.ledger.UpClosed ∧
      Throughout Ledger.UpClosed ((Call.elevate readOnlyChild "accounts").run {})
        readOnlyWorld.services ∧
      ∀ x s, ((Call.elevate readOnlyChild "accounts").run {}).exec readOnlyWorld.services = (x, s) →
        Ledger.Grants "accounts" readOnlyWorld.ledger s.ledger ∧
        ∀ ts, x = .ok ts → s.ledger.Covers "accounts" 2 ∧
          ∀ a, s.ledger.Ancestor 2 a → s.ledger.Covers "accounts" a := by
  have hrun := permission_upClosed World.empty_fresh reach_readOnlyWorld
  have hcall := hrun.2 (.elevate readOnlyChild "accounts") fun t ht => by
    obtain rfl := List.mem_singleton.1 ht
    exact readOnlyChild_known
  exact ⟨hrun.1, hcall.1, (hcall.2 readOnlyChild "accounts" rfl).2⟩

end Lifecycle

end NestedTxn

import NestedTxn.Proofs.Lifecycle.Copies
import NestedTxn.Proofs.Lifecycle.Outermost

/-!
# What an elevation comes to

* `Ledger.cascade table l c`: what becomes of the ledger `l` where the chain `c` is granted a table.
  The first node that covers it is left alone, with all above it. The nodes before are granted it,
  outermost first, up to one that has ended.
* `Lifecycle.exec_elevate`: while the ledger answers, the elevation of a copy is the cascade along
  its chain. The copy may be behind its record.
* `Lifecycle.exec_grant_last`: a cascade along the ancestors, and one more grant, is the cascade
  along the chain.
-/

namespace NestedTxn

/-- A grant of a table that is covered already changes nothing. -/
theorem Txn.grant_of_covers {t : Txn} {table : Table} (h : t.writableFor table = true) :
    t.grant table = t := by
  obtain ⟨d, hd, hcov⟩ := (Option.any_eq_true _ _).1 h
  have hsame : d.insert table = d := by
    refine Destination.ext_covers fun u => ?_
    rw [Bool.eq_iff_iff, Destination.covers_insert]
    exact ⟨fun hu => hu.elim (fun hu => hu ▸ hcov) fun hu => hu, .inr⟩
  unfold Txn.grant
  rw [hd]
  dsimp only
  rw [hsame, ← hd]

namespace Ledger

variable {l : Ledger} {table : Table} {id : TxnId} {u : Txn} {c : List Txn}

/-! ## Cascades -/

/-- What becomes of the ledger where the chain `c` is granted a table: nothing happens to its first
node that covers the table and to those above it. The nodes before are granted it, outermost first,
up to one that has ended. -/
def cascade (table : Table) (l : Ledger) : List Txn → Except TxnError Unit × Ledger
  | [] => (.ok (), l)
  | a :: c =>
    if a.writableFor table then (.ok (), l)
    else match cascade table l c with
      | (.error e, l') => (.error e, l')
      | (.ok _, l') =>
        if a.state.isTerminal then (.error (.alreadyTerminal a.id a.state), l')
        else (.ok (), l'.replace (a.grant table))

/-- A cascade changes the nodes of its chain only. -/
theorem find?_cascade (hid : id ∉ ids c) : (l.cascade table c).2.find? id = l.find? id := by
  induction c with
  | nil => rfl
  | cons a c ih =>
    rw [ids_cons, List.mem_cons, not_or] at hid
    have hrest := ih hid.2
    rw [cascade]
    split
    · rfl
    · split
      · next heq => rwa [heq] at hrest
      · next heq =>
        rw [heq] at hrest
        split
        · exact hrest
        · rwa [find?_replace, Txn.grant_id, if_neg (Ne.symm hid.1)]

/-- A cascade along the ancestors of a node leaves the node alone. -/
theorem find?_cascade_tail (hc : l.Chain id (u :: c)) :
    (l.cascade table c).2.find? id = some u := by
  have hnot : u.id ∉ ids c := (List.nodup_cons.1 hc.nodup).1
  rw [hc.id_head] at hnot
  rw [find?_cascade hnot, hc.find?_head]

/-- Above a node that covers the table nothing happens. -/
theorem cascade_of_covers (hc : l.Chain id (u :: c)) (hclosed : l.UpClosed)
    (hw : u.writableFor table = true) : l.cascade table c = (.ok (), l) := by
  cases c with
  | nil => rfl
  | cons a c =>
    have hparent : l.ParentOf id a.id := ⟨u, hc.find?_head, hc.parent_eq⟩
    obtain ⟨v, hv, hcov⟩ :=
      upClosed_iff.1 hclosed table id a.id hparent ⟨u, hc.find?_head, hw⟩
    rw [(hc.tail hc.parent_eq).find?_head] at hv
    cases hv
    rw [cascade, if_pos hcov]

section

variable {max : Nat} (hl : l.Proper max) (hc : l.Chain id (u :: c)) (ha : u.state = .active)
include hl hc ha

/-- An active node comes after a cascade along its ancestors, and adds one more grant to it. The
grant changes nothing if the node covers the table already. -/
theorem cascade_cons (table : Table) :
    (∃ e, l.cascade table c = (.error e, (l.cascade table c).2) ∧
        l.cascade table (u :: c) = (.error e, (l.cascade table c).2)) ∨
      (l.cascade table c).1 = .ok () ∧ (l.cascade table (u :: c)).1 = .ok () ∧
        (l.cascade table (u :: c)).2.txns =
          ((l.cascade table c).2.replace (u.grant table)).txns := by
  rw [cascade]
  split
  · next hw =>
    rw [cascade_of_covers hc hl.upClosed hw, Txn.grant_of_covers hw]
    exact .inr ⟨rfl, rfl, (txns_replace_self hl.nodup hc.find?_head).symm⟩
  · rcases hx : l.cascade table c with ⟨e | x, l'⟩
    · exact .inl ⟨e, rfl, rfl⟩
    · dsimp only
      rw [if_neg (by rw [ha]; decide)]
      exact .inr ⟨rfl, rfl, rfl⟩

end

end Ledger

namespace Lifecycle

open Services TxnError

variable {config : Config} {s : Services} {l : Ledger} {t u : Txn} {table : Table} {c : List Txn}

/-! ## While the ledger answers -/

/-- While the ledger answers, a walk for a table meets no outage. -/
theorem uncovered_serves (hup : s.ledger.switch.Up) (budget : Nat) (seen : List TxnId)
    (next : Option TxnId) :
    Act.FailsWith (fun e => ¬ e.IsOutage) (uncovered table budget seen next) s := by
  induction budget generalizing s seen next with
  | zero =>
    cases next with
    | none => exact .pure _
    | some id => exact .throw (malformedAncestry_not_isOutage _)
  | succ budget ih =>
    cases next with
    | none => exact .pure _
    | some id =>
      rw [uncovered]
      split
      · exact .throw (malformedAncestry_not_isOutage _)
      · refine .bind (recorded_serves hup id) fun p s' hp => ?_
        have hlooks := recorded_looks id s
        rw [hp] at hlooks
        split
        · exact .pure _
        · exact (ih (hlooks.up hup) _ _).bind fun _ _ _ => .pure _

/-- It finds the nodes ahead, up to the first that covers the table. -/
theorem uncovered_up (hup : s.ledger.switch.Up) {budget : Nat} {next : Option TxnId}
    (hc : s.ledger.Above next c) (hlen : c.length ≤ budget) (table : Table) :
    ∃ s', (uncovered table budget [] next).exec s =
      (.ok (c.takeWhile fun a => !a.writableFor table), s') ∧ s.Looks s' := by
  have hlooks := uncovered_looks table budget [] next s
  rcases hx : (uncovered table budget [] next).exec s with ⟨e | pending, s'⟩
  · have houtage := uncovered_fails hc hlen (List.forall_mem_nil _) e s' hx
    exact absurd houtage (uncovered_serves hup budget [] next e s' hx)
  · rw [hx] at hlooks
    rw [uncovered_ok hc hx]
    exact ⟨s', rfl, hlooks⟩

/-- An active record is granted the table. -/
theorem grant_active (hup : s.ledger.switch.Up) (hu : s.ledger.find? t.id = some u)
    (ha : u.state = .active) (table : Table) :
    ∃ s', (grant t table).exec s = (.ok (u.grant table), s') ∧
      s.Records (s.ledger.replace (u.grant table)) s' := by
  obtain ⟨t', s', hx⟩ := grant_ok hup hu ha table
  rcases grant_cases t table s with ⟨e, s₁, he, _⟩ | ⟨v, s₁, hv, _, he, hs, _⟩
  · rw [hx] at he
    cases he
  · rw [hu] at hv
    cases hv
    exact ⟨s₁, he, hs⟩

/-- One that has ended is not. -/
theorem grant_ended (hup : s.ledger.switch.Up) (hu : s.ledger.find? t.id = some u)
    (ht : u.state.isTerminal = true) (table : Table) :
    (grant t table).exec s =
      (.error (.alreadyTerminal t.id u.state), s.withLedger s.nextLedger) := by
  have hon : s.nextLedger.switch.on = true := hup.on_advance
  have hx : (onLedger (Ledger.grant t.id table)).exec s =
      (.error (.alreadyTerminal t.id u.state), s.withLedger s.nextLedger) := by
    rw [exec_onLedger, Ledger.grant, Ledger.exec_update, if_pos hon, nextLedger_find?, hu]
    simp [ht]
  rw [grant, Act.exec_bind_error hx]

/-! ## Elevations are cascades -/

/-- The nodes ahead are granted the table, as far as a cascade comes. -/
theorem exec_grants (hup : s.ledger.switch.Up) (hs : s.ledger.txns = l.txns)
    {next : Option TxnId} (hc : l.Above next c) (table : Table) :
    ∃ s', ((c.takeWhile fun a => !a.writableFor table).reverse.forM fun a =>
        discard (grant a table)).exec s = ((l.cascade table c).1, s') ∧
      s.Records (l.cascade table c).2 s' := by
  induction c generalizing next with
  | nil => exact ⟨s, rfl, .refl s, hs⟩
  | cons a c ih =>
    cases next with
    | none => cases hc
    | some id =>
      have hchain : l.Chain id (a :: c) := hc
      rw [Ledger.cascade]
      by_cases hw : a.writableFor table = true
      · rw [if_pos hw, List.takeWhile_cons_of_neg (by simpa using hw)]
        exact ⟨s, rfl, .refl s, hs⟩
      rw [if_neg hw, List.takeWhile_cons_of_pos (by simpa using hw), List.reverse_cons]
      obtain ⟨s₁, hx, hr⟩ := ih hchain.above
      have happend : ∀ pending : List Txn,
          ((pending ++ [a]).forM fun a => discard (grant a table)) =
            (pending.forM fun a => discard (grant a table)) >>= fun _ =>
              discard (grant a table) := by
        intro pending
        simp
      have hfind : s₁.ledger.find? a.id = some a := by
        rw [hr.find?, hchain.id_head, Ledger.find?_cascade_tail hchain]
      rw [happend]
      rcases hcas : l.cascade table c with ⟨e | x, l'⟩ <;> rw [hcas] at hx hr
      · exact ⟨s₁, Act.exec_bind_error hx, hr⟩
      · rw [Act.exec_bind_ok hx, Act.exec_discard]
        dsimp only
        cases hterm : a.state.isTerminal with
        | true =>
          rw [grant_ended (hr.up hup) hfind hterm table]
          have hlook := records_called s₁
          exact ⟨_, rfl, hr.toSpares.trans hlook.toSpares, hlook.txns.trans hr.txns⟩
        | false =>
          obtain ⟨s₂, hg, hr₂⟩ :=
            grant_active (hr.up hup) hfind (Txn.isTerminal_eq_false.1 hterm) table
          rw [hg]
          refine ⟨s₂, rfl, hr.toSpares.trans hr₂.toSpares, ?_⟩
          rw [hr₂.txns, Ledger.replace, hr.txns]
          rfl

section

variable {max : Nat} {s₁ : Services} (hl : l.Proper max) (hc : l.Chain t.id (u :: c))
  (ha : u.state = .active)
include hl hc ha

/-- After a cascade along the ancestors of an active node one more grant completes the cascade along
its chain. -/
theorem exec_grant_last (hup : s₁.ledger.switch.Up) (hok : (l.cascade table c).1 = .ok ())
    (h₁ : s₁.ledger.txns = (l.cascade table c).2.txns) :
    (l.cascade table (u :: c)).1 = .ok () ∧ ∃ s₂, (grant t table).exec s₁ =
      (.ok (u.grant table), s₂) ∧ s₁.Records (l.cascade table (u :: c)).2 s₂ := by
  have hfind : s₁.ledger.find? t.id = some u := by
    rw [Ledger.find?_congr h₁, Ledger.find?_cascade_tail hc]
  obtain ⟨s₂, hg, hr⟩ := grant_active hup hfind ha table
  rcases Ledger.cascade_cons hl hc ha table with ⟨e, he, _⟩ | ⟨_, hfull, htxns⟩
  · rw [he] at hok
    cases hok
  · refine ⟨hfull, s₂, hg, hr.toSpares, ?_⟩
    rw [hr.txns, htxns, Ledger.replace, h₁, Ledger.replace]

end

/-- What the elevation of a copy `t` of the record `u` answers. -/
def elevated (table : Table) (t u : Txn) : Txn :=
  if t.writableFor table then t else u.grant table

theorem writableFor_elevated (table : Table) (t u : Txn) :
    (elevated table t u).writableFor table = true := by
  unfold elevated
  split
  · assumption
  · exact Txn.writableFor_grant.2 (.inl rfl)

theorem elevated_id (h : u.id = t.id) : (elevated table t u).id = t.id := by
  unfold elevated
  split
  · rfl
  · exact h

/-- While the ledger answers, the elevation of a copy of an active record is the cascade along its
chain. -/
theorem exec_elevate (hup : s.ledger.switch.Up)
    (hl : s.ledger.Proper config.maxAncestorDepth.toNat) (ht : s.ledger.Stands t u)
    (hc : s.ledger.Chain t.id (u :: c)) (table : Table) :
    ∃ s', (elevate config t table).exec s =
        ((s.ledger.cascade table (u :: c)).1.map fun _ => elevated table t u, s') ∧
      s.Records (s.ledger.cascade table (u :: c)).2 s' := by
  unfold elevate elevated
  split
  · next hw =>
    rw [Ledger.cascade, if_pos (ht.leads.covers hw)]
    exact ⟨s, rfl, .refl s⟩
  · have habove : s.ledger.Above t.parent c := Txn.parent_of_origin ht.leads.origin ▸ hc.above
    obtain ⟨s₁, hx, hlooks⟩ := uncovered_up hup habove (hc.length_le hl.sound) table
    obtain ⟨s₂, hy, hr⟩ := exec_grants (hlooks.up hup) hlooks.txns habove table
    rw [Act.exec_bind_ok (demandActive_ok (ht.leads.active ht.active) s), Act.exec_bind_ok hx]
    rcases Ledger.cascade_cons hl hc ht.active table with ⟨e, he, hfull⟩ | ⟨hok, hfull, _⟩
    · rw [he] at hy hr
      rw [hfull, Act.exec_bind_error hy]
      exact ⟨s₂, rfl, hlooks.toSpares.trans hr.toSpares, hr.txns⟩
    · rw [hok] at hy
      obtain ⟨-, s₃, hg, hr₃⟩ :=
        exec_grant_last hl hc ht.active (hr.up (hlooks.up hup)) hok hr.txns
      rw [hfull, Act.exec_bind_ok hy, hg]
      exact ⟨s₃, rfl, (hlooks.toSpares.trans hr.toSpares).trans hr₃.toSpares, hr₃.txns⟩

/-- Under a parent that covers the table after a cascade, the elevation of a copy completes the
cascade along its chain. -/
theorem exec_elevateUnder (config : Config) {max : Nat} {s₁ : Services} {parent : Option Txn}
    (hl : l.Proper max) (ht : l.Stands t u) (hc : l.Chain t.id (u :: c)) (hup : s₁.ledger.switch.Up)
    (hok : (l.cascade table c).1 = .ok ()) (h₁ : s₁.ledger.txns = (l.cascade table c).2.txns)
    (hp : parent.any fun p => t.parent = some p.id && p.writableFor table) :
    (l.cascade table (u :: c)).1 = .ok () ∧ ∃ s₂, (elevateUnder config t table parent).exec s₁ =
      (.ok (elevated table t u), s₂) ∧ s₁.Records (l.cascade table (u :: c)).2 s₂ := by
  rw [elevateUnder_eq config (.inr hp), elevated]
  split
  · next hw =>
    have hcov := ht.leads.covers hw
    rw [Ledger.cascade_of_covers hc hl.upClosed hcov] at h₁
    rw [Ledger.cascade, if_pos hcov]
    exact ⟨rfl, s₁, rfl, .refl s₁, h₁⟩
  · rw [Act.exec_bind_ok (demandActive_ok (ht.leads.active ht.active) s₁)]
    exact exec_grant_last hl hc ht.active hup hok h₁

/-- With no parent at hand all ancestors need a look. -/
theorem elevateUnder_none (config : Config) (t : Txn) (table : Table) :
    elevateUnder config t table none = elevate config t table := by
  unfold elevateUnder
  split
  · next hw => rw [elevate, if_pos hw]
  · rfl

end Lifecycle

end NestedTxn

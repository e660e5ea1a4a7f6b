import NestedTxn.Proofs.Lifecycle.Permission
import NestedTxn.Proofs.Visibility.Walk

/-!
# Elevations and commits below a corrupt record

Here the ledger may hold anything: cycles, parents that are not recorded, chains without an end.
While it answers, an elevation looks first and grants afterwards.

* `Ledger.UpTo l table next path`: from `next` upwards come the records of `path`, up to the first
  that covers the table, or to a root. There is at most one such path (`UpTo.unique`), and it
  repeats no record (`UpTo.unseen`). `Ledger.Lacks l table next id`: instead one comes to `id`,
  which is not recorded.
* `Lifecycle.exec_uncovered`: a walk finds the path, if it is short enough, and nothing else.
* `Lifecycle.Elevation`, `Commitment`: how an elevation and a commit may go (`elevate_elevation`,
  `commit_commitment`). What fails before its walk is over has only looked.
* `Lifecycle.SafeElevation`, `SafeCommitment`: what can be relied on in an elevation and a commit.
  `Lifecycle.corrupt_fails_closed`: it holds while the ledger answers. In the end the whole path
  covers the table.
-/

namespace NestedTxn

namespace Ledger

/-- From an id upwards come the records of a path, up to the first that covers `table`, or to a
root. -/
inductive UpTo (l : Ledger) (table : Table) : Option TxnId → List Txn → Prop
  /-- Nothing is above a root. -/
  | top : UpTo l table none []
  /-- The path ends where the table is covered. -/
  | covering {id : TxnId} {t : Txn} : l.find? id = some t → t.writableFor table = true →
      UpTo l table (some id) [t]
  /-- It goes on where the table is not. -/
  | uncovered {id : TxnId} {t : Txn} {path : List Txn} : l.find? id = some t →
      t.writableFor table = false → UpTo l table t.parent path → UpTo l table (some id) (t :: path)

/-- Upwards from an id, where no record covers `table`, one comes to an id that is not recorded. -/
inductive Lacks (l : Ledger) (table : Table) : Option TxnId → TxnId → Prop
  /-- The id is not recorded. -/
  | here {id : TxnId} : l.find? id = none → Lacks l table (some id) id
  /-- Its record does not cover the table. -/
  | above {id a : TxnId} {t : Txn} : l.find? id = some t → t.writableFor table = false →
      Lacks l table t.parent a → Lacks l table (some id) a

variable {l : Ledger} {table : Table} {id a : TxnId} {t u : Txn} {next : Option TxnId}
  {path path' : List Txn}

/-- A path from an id starts with its record. -/
theorem UpTo.start_mem (h : l.UpTo table (some id) path) : id ∈ ids path := by
  cases h with
  | covering ht _ => simp [id_of_find? ht]
  | uncovered ht _ _ => simp [id_of_find? ht]

/-- A path ends with a record that covers the table. -/
theorem UpTo.done (h : l.UpTo table (some id) path) (ht : l.find? id = some t)
    (hw : t.writableFor table = true) : path = [t] := by
  cases h with
  | covering ht' _ =>
    rw [ht] at ht'
    cases ht'
    rfl
  | uncovered ht' hw' _ =>
    rw [ht] at ht'
    cases ht'
    rw [hw] at hw'
    cases hw'

/-- A path goes on above a record that does not cover the table. -/
theorem UpTo.rest (h : l.UpTo table (some id) path) (ht : l.find? id = some t)
    (hw : t.writableFor table = false) : ∃ rest, path = t :: rest ∧ l.UpTo table t.parent rest := by
  cases h with
  | covering ht' hw' =>
    rw [ht] at ht'
    cases ht'
    rw [hw] at hw'
    cases hw'
  | uncovered ht' _ habove =>
    rw [ht] at ht'
    cases ht'
    exact ⟨_, rfl, habove⟩

/-- What is missing from a recorded id on is missing above its record. -/
theorem Lacks.rest (h : l.Lacks table (some id) a) (ht : l.find? id = some t) :
    t.writableFor table = false ∧ l.Lacks table t.parent a := by
  cases h with
  | here hn =>
    rw [ht] at hn
    cases hn
  | above ht' hw habove =>
    rw [ht] at ht'
    cases ht'
    exact ⟨hw, habove⟩

/-- There is at most one path. -/
theorem UpTo.unique (h : l.UpTo table next path) (h' : l.UpTo table next path') :
    path = path' := by
  induction h generalizing path' with
  | top =>
    cases h'
    rfl
  | covering ht hw => exact (h'.done ht hw).symm
  | uncovered ht hw _ ih =>
    obtain ⟨rest, rfl, habove⟩ := h'.rest ht hw
    rw [ih habove]

theorem UpTo.of_txns {l' : Ledger} (h : l.UpTo table next path) (he : l'.txns = l.txns) :
    l'.UpTo table next path := by
  induction h with
  | top => exact .top
  | covering ht hw => exact .covering (by rw [find?_congr he, ht]) hw
  | uncovered ht hw _ ih => exact .uncovered (by rw [find?_congr he, ht]) hw ih

/-- Where there is a path, nothing is missing. -/
theorem UpTo.not_lacks (h : l.UpTo table next path) : ¬ l.Lacks table next a := by
  intro hlacks
  induction h with
  | top => cases hlacks
  | covering ht hw =>
    have hnot := (hlacks.rest ht).1
    rw [hw] at hnot
    cases hnot
  | uncovered ht _ _ ih => exact ih (hlacks.rest ht).2

/-- Every record of a path starts one that is no longer. -/
theorem UpTo.suffix (h : l.UpTo table next path) (hu : u ∈ path) :
    ∃ rest, l.UpTo table (some u.id) (u :: rest) ∧ (u :: rest).length ≤ path.length := by
  induction h with
  | top => cases hu
  | covering ht hw =>
    obtain rfl := List.mem_singleton.1 hu
    rw [← id_of_find? ht] at ht
    exact ⟨[], .covering ht hw, Nat.le_refl _⟩
  | @uncovered id t path ht hw habove ih =>
    rcases List.mem_cons.1 hu with rfl | hu
    · rw [← id_of_find? ht] at ht
      exact ⟨path, .uncovered ht hw habove, Nat.le_refl _⟩
    · obtain ⟨rest, hrest, hlen⟩ := ih hu
      exact ⟨rest, hrest, Nat.le_succ_of_le hlen⟩

/-- The records of a path are recorded. -/
theorem UpTo.find?_of_mem (h : l.UpTo table next path) (hu : u ∈ path) :
    l.find? u.id = some u := by
  obtain ⟨rest, hrest, -⟩ := h.suffix hu
  cases hrest <;> assumption

/-- A path repeats no record: from the repetition on it would be as long as from the record on. -/
theorem UpTo.unseen (h : l.UpTo table t.parent path) (ht : l.find? id = some t)
    (hw : t.writableFor table = false) : id ∉ ids path := by
  intro hid
  obtain ⟨u, hu, rfl⟩ := mem_ids.1 hid
  obtain ⟨rest, hrest, hlen⟩ := h.suffix hu
  rw [hrest.unique (.uncovered ht hw h)] at hlen
  exact absurd hlen (Nat.not_succ_le_self _)

/-- A record that ends a path before a root covers the table. -/
theorem UpTo.covers_of_not_mem (h : l.UpTo table next path) (hu : u ∈ path)
    (hw : u ∉ path.takeWhile fun a => !a.writableFor table) : l.Covers table u.id := by
  refine ⟨u, h.find?_of_mem hu, ?_⟩
  induction h with
  | top => cases hu
  | covering _ hcov =>
    obtain rfl := List.mem_singleton.1 hu
    exact hcov
  | uncovered _ hnot _ ih =>
    rw [List.takeWhile_cons_of_pos (by simp [hnot]), List.mem_cons, not_or] at hw
    exact ih ((List.mem_cons.1 hu).resolve_left hw.1) hw.2

end Ledger

namespace Lifecycle

open Services TxnError

variable {config : Config} {s s' : Services} {t u : Txn} {table : Table} {next : Option TxnId}
  {path : List Txn} {budget : Nat}

/-! ## Walks -/

theorem exec_recorded_up (hup : s.ledger.switch.Up) (id : TxnId) :
    (recorded id).exec s = (match s.ledger.find? id with
      | some t => .ok t
      | none => .error (.notFound id), s.withLedger s.nextLedger) := by
  rw [recorded, Act.exec_bind_ok (exec_fetch_up hup id)]
  cases s.ledger.find? id <;> rfl

/-- Why a walk for `table` from `next` upwards does not come to its end: it goes in a circle or is
too long, or an ancestor is missing. -/
def Blocks (l : Ledger) (table : Table) (next : Option TxnId) (e : TxnError) : Prop :=
  (∃ fault, e = .malformedAncestry fault) ∨ ∃ id, e = .notFound id ∧ l.Lacks table next id

/-- A walk finds the path, if that is not too long, and looks up its records only. Else it says why
there is no such path. -/
theorem exec_uncovered {l : Ledger} (hl : s.ledger.txns = l.txns) (hup : s.ledger.switch.Up)
    (table : Table) (budget : Nat) (seen : List TxnId) (next : Option TxnId) :
    ∃ x s', (uncovered table budget seen next).exec s = (x, s') ∧ s.Looks s' ∧
      s'.ledger.switch.calls ≤ s.ledger.switch.calls + budget ∧
      ((∃ path, x = .ok (path.takeWhile fun a => !a.writableFor table) ∧
          l.UpTo table next path ∧ path.length ≤ budget) ∨
        ∃ e, x = .error e ∧ Blocks l table next e ∧
          ∀ path, l.UpTo table next path → (∀ a ∈ seen, a ∉ Ledger.ids path) →
            budget < path.length) := by
  induction budget generalizing s seen next with
  | zero =>
    cases next with
    | none => exact ⟨_, s, rfl, .refl s, Nat.le_refl _, .inl ⟨[], rfl, .top, Nat.le_refl _⟩⟩
    | some id =>
      refine ⟨_, s, rfl, .refl s, Nat.le_refl _, .inr ⟨_, rfl, .inl ⟨_, rfl⟩, ?_⟩⟩
      intro path hpath _
      cases hpath <;> exact Nat.succ_pos _
  | succ budget ih =>
    cases next with
    | none => exact ⟨_, s, rfl, .refl s, Nat.le_add_right _ _, .inl ⟨[], rfl, .top, Nat.zero_le _⟩⟩
    | some id =>
      rw [uncovered]
      split
      · next hid =>
        refine ⟨_, s, rfl, .refl s, Nat.le_add_right _ _, .inr ⟨_, rfl, .inl ⟨_, rfl⟩, ?_⟩⟩
        exact fun path hpath hseen => absurd hpath.start_mem (hseen id hid)
      · have hlook := looks_called s
        have hcall : s.nextLedger.switch.calls ≤ s.ledger.switch.calls + (budget + 1) :=
          Nat.add_le_add_left (Nat.le_add_left 1 budget) _
        rw [Act.exec_bind, exec_recorded_up hup, Ledger.find?_congr hl]
        cases ht : l.find? id with
        | none =>
          refine ⟨_, _, rfl, hlook, hcall, .inr ⟨_, rfl, .inr ⟨id, rfl, .here ht⟩, ?_⟩⟩
          exact fun path hpath _ => absurd (.here ht) hpath.not_lacks
        | some t =>
          dsimp only
          cases hw : t.writableFor table with
          | true =>
            exact ⟨_, _, rfl, hlook, hcall,
              .inl ⟨[t], by simp [hw], .covering ht hw, Nat.succ_le_succ (Nat.zero_le _)⟩⟩
          | false =>
            obtain ⟨x, s', hx, hlook', hcalls, hend⟩ :=
              ih (hlook.txns.trans hl) (hlook.up hup) (id :: seen) t.parent
            refine ⟨x.map (t :: ·), s', ?_, hlook.trans _ _ _ hlook', ?_, ?_⟩
            · rw [if_neg (by decide), Act.exec_bind, hx]
              cases x <;> rfl
            · have hcalled : s.nextLedger.switch.calls = s.ledger.switch.calls + 1 := rfl
              rw [withLedger_ledger, hcalled] at hcalls
              omega
            · rcases hend with ⟨path, rfl, hpath, hlen⟩ | ⟨e, rfl, hblocks, hlong⟩
              · exact .inl ⟨t :: path, by simp [Except.map, hw], .uncovered ht hw hpath,
                  Nat.succ_le_succ hlen⟩
              · refine .inr ⟨e, rfl, hblocks.imp_right ?_, fun path hpath hseen => ?_⟩
                · rintro ⟨a, rfl, hlacks⟩
                  exact ⟨a, rfl, .above ht hw hlacks⟩
                · obtain ⟨rest, rfl, habove⟩ := hpath.rest ht hw
                  refine Nat.succ_lt_succ (hlong rest habove fun a ha => ?_)
                  rcases List.mem_cons.1 ha with rfl | ha
                  · exact habove.unseen ht hw
                  · exact fun hin => hseen a ha (List.mem_cons_of_mem _ hin)

theorem recorded_calls (id : TxnId) :
    Act.Costs (fun _ => True) (fun s : Services => s.ledger.switch.calls) 1 (recorded id) := by
  intro s _
  refine ⟨trivial, ?_⟩
  rcases exec_fetch_cases id s with hx | hx
  · rw [recorded, Act.exec_bind_error hx]
    exact Nat.le_refl _
  · rw [recorded, Act.exec_bind_ok hx]
    cases s.ledger.find? id <;> exact Nat.le_refl _

theorem globalTimestamp_calls (budget : Nat) (seen : List TxnId) (next : Option TxnId) :
    Act.Costs (fun _ => True) (fun s : Services => s.ledger.switch.calls) budget
      (globalTimestamp budget seen next) := by
  induction budget generalizing seen next with
  | zero =>
    cases next with
    | none => exact .pure _ _
    | some id => exact .throw _ _
  | succ budget ih =>
    cases next with
    | none => exact .pure _ _
    | some id =>
      rw [globalTimestamp]
      split
      · exact .throw _ _
      · rw [Nat.add_comm]
        refine .bind (recorded_calls id) fun p => ?_
        split
        · exact .pure _ _
        · split
          · exact .pure _ _
          · exact ih _ _

theorem commitGlobal_calls (config : Config) (t : Txn) (ts : Timestamp) :
    Act.Costs (fun _ => True) (fun s : Services => s.ledger.switch.calls)
      config.maxAncestorDepth.toNat (commitGlobal config t ts) := by
  unfold commitGlobal
  split
  · exact .pure _ _
  · exact globalTimestamp_calls _ _ _

/-! ## Grants -/

/-- The grants of an elevation: to the records of a path before the one that covers the table,
outermost first, and then to `t`. -/
def grantDown (table : Table) (path : List Txn) (t : Txn) : Act Services TxnError Txn := do
  (path.takeWhile fun a => !a.writableFor table).reverse.forM fun a => discard (grant a table)
  grant t table

theorem update_calls (id : TxnId) (change : Txn → Txn) :
    Act.Costs (fun _ => True) (fun s : Services => s.ledger.switch.calls) 1
      (onLedger (Ledger.update id change)) := by
  intro s _
  refine ⟨trivial, ?_⟩
  rcases exec_update_cases id change s with ⟨e, he, -⟩ | ⟨u, -, -, he⟩ <;> rw [he] <;>
    exact Nat.le_refl _

theorem grant_calls (t : Txn) (table : Table) :
    Act.Costs (fun _ => True) (fun s : Services => s.ledger.switch.calls) 1 (grant t table) := by
  refine .bind (n := 0) (update_calls t.id _) fun elevated => ?_
  split
  · exact fun _ _ => ⟨trivial, Nat.le_refl _⟩
  · exact fun _ _ => ⟨trivial, Nat.le_refl _⟩

theorem grantDown_calls (table : Table) (path : List Txn) (t : Txn) :
    Act.Costs (fun _ => True) (fun s : Services => s.ledger.switch.calls) (path.length + 1)
      (grantDown table path t) := by
  have hlen : (path.takeWhile fun a => !a.writableFor table).length ≤ path.length :=
    (List.takeWhile_prefix _).length_le
  refine .mono (.bind (.forM (fun a => (grant_calls a table).map _) _) fun _ =>
    grant_calls t table) ?_
  simpa using hlen

/-- No grant takes back what is permitted. -/
theorem grant_widens (t : Txn) (table : Table) :
    Act.Keeps (fun s s' => s.ledger.Widens s'.ledger) (grant t table) := by
  intro s
  rcases grant_cases t table s with ⟨e, s', he, hs⟩ | ⟨u, s', hu, -, he, hs, -⟩ <;> rw [he]
  · exact .of_txns hs.txns
  · exact (Ledger.grants_replace hu).widens.trans (.of_txns hs.txns)

theorem grants_widen (table : Table) (l : List Txn) :
    Act.Keeps (fun s s' => s.ledger.Widens s'.ledger)
      (l.forM fun a => discard (grant a table)) :=
  .forM (fun s => .refl s.ledger) (fun _ _ _ => .trans) (fun a => (grant_widens a table).map _) l

/-- Grants that succeed, one after the other, leave all of the list covered. -/
theorem grants_cover {l : List Txn} {x : PUnit}
    (h : (l.forM fun a => discard (grant a table)).exec s = (.ok x, s')) :
    ∀ a ∈ l, s'.ledger.Covers table a.id := by
  induction l generalizing s with
  | nil => exact List.forall_mem_nil _
  | cons b l ih =>
    obtain ⟨_, s₁, hb, hl⟩ := Act.exec_bind_eq_ok h
    obtain ⟨b', hb', -⟩ := Act.exec_map_eq_ok hb
    have hwiden := grants_widen table l s₁
    rw [hl] at hwiden
    refine List.forall_mem_cons.2 ⟨?_, ih hl⟩
    exact (grant_covers hb').widens hwiden

/-- Once the grants are over, the whole path covers the table, and so does the transaction. -/
theorem grantDown_covers {t' : Txn} (hpath : s.ledger.UpTo table next path)
    (h : (grantDown table path t).exec s = (.ok t', s')) :
    (∀ a ∈ path, s'.ledger.Covers table a.id) ∧ s'.ledger.Covers table t.id := by
  obtain ⟨_, s₁, hgrants, hlast⟩ := Act.exec_bind_eq_ok h
  have hfirst := grants_widen table (path.takeWhile fun a => !a.writableFor table).reverse s
  have hsecond := grant_widens t table s₁
  rw [hgrants] at hfirst
  rw [hlast] at hsecond
  refine ⟨fun a ha => ?_, grant_covers hlast⟩
  by_cases hpending : a ∈ path.takeWhile fun a => !a.writableFor table
  · exact (grants_cover hgrants a (List.mem_reverse.2 hpending)).widens hsecond
  · exact ((hpath.covers_of_not_mem ha hpending).widens hfirst).widens hsecond

theorem grant_unrecorded (hu : s.ledger.find? t.id = none) :
    Act.FailsWith (fun e => e.IsOutage ∨ e = .notFound t.id) (grant t table) s := by
  have hfails : Act.FailsWith (fun e => e.IsOutage ∨ e = .notFound t.id)
      (onLedger (Ledger.grant t.id table)) s := by
    intro e s' he
    rw [exec_onLedger, Ledger.grant, Ledger.exec_update, nextLedger_find?, hu] at he
    split at he <;> cases he
    · exact .inr rfl
    · exact .inl (isOutage_unavailable .ledger)
  refine .bind hfails fun _ s₁ _ => ?_
  split
  · exact .bind (.of_ok (exec_count _ _)) fun _ _ _ =>
      .bind (.of_ok (exec_report _ _)) fun _ _ _ => .pure _
  · exact .bind (.of_ok (exec_report _ _)) fun _ _ _ => .pure _

/-- Once the walk is over, an elevation fails only where a transaction has ended, or where the
transaction itself is not recorded. -/
theorem grantDown_fails (hpath : s.ledger.UpTo table next path) (t : Txn) :
    Act.FailsWith (fun e => e.EndedAlready ∨ e = .notFound t.id ∧ s.ledger.find? t.id = none)
      (grantDown table path t) s := by
  have hrecorded : ∀ a ∈ (path.takeWhile fun a => !a.writableFor table).reverse,
      ∃ u, s.ledger.find? a.id = some u := fun a ha =>
    ⟨a, hpath.find?_of_mem ((List.takeWhile_prefix _).subset (List.mem_reverse.1 ha))⟩
  refine .bind ((grants_fail hrecorded).mono fun _ => .inl) fun _ s₁ h₁ => ?_
  have hre := grants_regrants table (path.takeWhile fun a => !a.writableFor table).reverse s
  rw [h₁] at hre
  cases hu : s₁.ledger.find? t.id with
  | some u => exact (grant_fails hu).mono fun _ => .inl
  | none =>
    refine (grant_unrecorded hu).mono fun e he => ?_
    rcases he with he | rfl
    · exact .inl he.endedAlready
    · have hbare := hre.bare t.id
      rw [hu, Option.map_none, eq_comm, Option.map_eq_none_iff] at hbare
      exact .inr ⟨rfl, hbare⟩

/-! ## Elevations and commits -/

/-- How the elevation of `t` may go, where at most `max` ancestors are looked up. -/
inductive Elevation (max : Nat) (t : Txn) (table : Table) (s : Services) :
    Except TxnError Txn × Services → Prop
  /-- The table is covered already. -/
  | covered : t.writableFor table = true → Elevation max t table s (.ok t, s)
  /-- The transaction has ended. -/
  | ended : t.writableFor table = false → t.state ≠ .active →
      Elevation max t table s (.error (.alreadyTerminal t.id t.state), s)
  /-- The walk does not come to its end. -/
  | blocked {e : TxnError} {s' : Services} : t.writableFor table = false →
      (∀ path, s.ledger.UpTo table t.parent path → max < path.length) →
      Blocks s.ledger table t.parent e → s.Looks s' →
      s'.ledger.switch.calls ≤ s.ledger.switch.calls + max →
      Elevation max t table s (.error e, s')
  /-- The path is known; from then on it is granted the table. -/
  | walked {path : List Txn} {s₁ : Services} : t.writableFor table = false → t.state = .active →
      s.ledger.UpTo table t.parent path → path.length ≤ max → s.Looks s₁ →
      s₁.ledger.switch.calls ≤ s.ledger.switch.calls + max →
      Elevation max t table s ((grantDown table path t).exec s₁)

theorem elevate_elevation (config : Config) (t : Txn) (table : Table)
    (hup : s.ledger.switch.Up) :
    Elevation config.maxAncestorDepth.toNat t table s ((elevate config t table).exec s) := by
  rw [elevate]
  cases hw : t.writableFor table with
  | true => exact .covered hw
  | false =>
    rw [if_neg (by decide), Act.exec_bind, exec_demandActive]
    cases ht : t.state.isTerminal with
    | true =>
      refine .ended hw fun ha => ?_
      rw [ha] at ht
      cases ht
    | false =>
      obtain ⟨x, s₁, hx, hlook, hcalls, ⟨path, rfl, hpath, hlen⟩ | ⟨e, rfl, hblocks, hlong⟩⟩ :=
        exec_uncovered (l := s.ledger) rfl hup table config.maxAncestorDepth.toNat [] t.parent
      · have hwalk : (do
            let pending ← uncovered table config.maxAncestorDepth.toNat [] t.parent
            pending.reverse.forM fun a => discard (grant a table)
            grant t table).exec s = (grantDown table path t).exec s₁ := by
          rw [Act.exec_bind_ok hx]
          rfl
        simp only [Bool.false_eq_true, if_false]
        rw [hwalk]
        exact .walked hw (Txn.isTerminal_eq_false.1 ht) hpath hlen hlook hcalls
      · simp only [Bool.false_eq_true, if_false]
        rw [Act.exec_bind_error hx]
        exact .blocked hw (fun path hpath => hlong path hpath (List.forall_mem_nil _)) hblocks hlook
          hcalls

/-- The last call of a commit, once its timestamps are known. -/
def settle (t : Txn) (ts : Timestamp) (globalTs : Option Timestamp) :
    Act Services TxnError Timestamp := do
  discard (onLedger (Ledger.finish t.id (.committed ts globalTs)))
  count .committed
  report (.committed ts globalTs)
  return ts

/-- How the commit of `t` may go, where at most `max` ancestors are looked up. -/
inductive Commitment (max : Nat) (t : Txn) (s : Services) :
    Except TxnError Timestamp × Services → Prop
  /-- A timestamp is missing. -/
  | refused {e : TxnError} {s' : Services} : s.Records s.ledger s' →
      s'.ledger.switch.calls ≤ s.ledger.switch.calls + max → Commitment max t s (.error e, s')
  /-- The timestamps are known; from then on the record is changed. -/
  | walked {ts : Timestamp} {globalTs : Option Timestamp} {s₁ : Services} :
      s.Records s.ledger s₁ → s₁.ledger.switch.calls ≤ s.ledger.switch.calls + max →
      Commitment max t s ((settle t ts globalTs).exec s₁)

theorem commit_commitment (config : Config) (t : Txn) (s : Services) :
    Commitment config.maxAncestorDepth.toNat t s ((commit config t).exec s) := by
  rw [commit_eq, Act.exec_bind, exec_demandActive]
  cases t.state.isTerminal with
  | true => exact .refused (.refl s) (Nat.le_add_right _ _)
  | false =>
    simp only [Bool.false_eq_true, if_false]
    cases hr : s.clock.reading s.clock.taken with
    | none =>
      rw [Act.exec_bind_error (exec_tick_none hr)]
      exact .refused (records_ticked s) (Nat.le_add_right _ _)
    | some ts =>
      rw [Act.exec_bind_ok (exec_tick_some hr)]
      have hlook := commitGlobal_looks config t ts s.ticked
      have hcalls := (commitGlobal_calls config t ts s.ticked trivial).2
      rcases hx : (commitGlobal config t ts).exec s.ticked with ⟨e | globalTs, s₁⟩ <;>
        rw [hx] at hlook hcalls
      · rw [Act.exec_bind_error hx]
        exact .refused hlook.toRecords.after_tick hcalls
      · rw [Act.exec_bind_ok hx]
        exact .walked hlook.toRecords.after_tick hcalls

section

variable {max : Nat} {r : Except TxnError Txn × Services} (h : Elevation max t table s r)
include h

theorem Elevation.calls :
    r.2.ledger.switch.calls ≤ s.ledger.switch.calls + (2 * max + 1) := by
  cases h with
  | covered _ => exact Nat.le_add_right _ _
  | ended _ _ => exact Nat.le_add_right _ _
  | blocked _ _ _ _ hcalls => dsimp only; omega
  | @walked path s₁ _ _ _ hlen _ hcalls =>
    have hgrants := (grantDown_calls table path t s₁ trivial).2
    dsimp only at hgrants
    omega

/-- Where the walk does not come to its end, nothing was changed. -/
theorem Elevation.unchanged {e : TxnError} (he : r.1 = .error e)
    (hb : Blocks s.ledger table t.parent e) : r.2.ledger.txns = s.ledger.txns := by
  cases h with
  | covered _ => rfl
  | ended _ _ => rfl
  | blocked _ _ _ hlook _ => exact hlook.txns
  | @walked path s₁ _ _ hpath _ hlook _ =>
    -- with the path known, no grant fails for such a reason
    exfalso
    have hpath₁ : s₁.ledger.UpTo table t.parent path := hpath.of_txns hlook.txns
    have hfails := grantDown_fails hpath₁ t e _ (Prod.ext he rfl)
    rcases hfails with (⟨o, rfl⟩ | ⟨id, state, rfl⟩) | ⟨rfl, -⟩
    · rcases hb with ⟨_, hb⟩ | ⟨_, hb, -⟩ <;> cases hb
    · rcases hb with ⟨_, hb⟩ | ⟨_, hb, -⟩ <;> cases hb
    · rcases hb with ⟨_, hb⟩ | ⟨_, hb, hlacks⟩ <;> cases hb
      exact hpath.not_lacks hlacks

/-- What is not recorded is an ancestor, or the transaction itself. -/
theorem Elevation.notFound {id : TxnId} (he : r.1 = .error (.notFound id)) :
    s.ledger.Lacks table t.parent id ∨ id = t.id ∧ s.ledger.find? id = none := by
  cases h with
  | covered _ => cases he
  | ended _ _ => cases he
  | blocked _ _ hb _ _ =>
    cases he
    rcases hb with ⟨_, hb⟩ | ⟨_, hb, hlacks⟩ <;> cases hb
    exact .inl hlacks
  | @walked path s₁ _ _ hpath _ hlook _ =>
    rcases grantDown_fails (hpath.of_txns hlook.txns) t _ _ (Prod.ext he rfl) with
      (⟨_, hfail⟩ | ⟨_, _, hfail⟩) | ⟨hfail, hnone⟩ <;> cases hfail
    exact .inr ⟨rfl, (hlook.find? t.id).symm.trans hnone⟩

/-- An elevation that succeeds has found a path, and all of it covers the table. -/
theorem Elevation.covers {t' : Txn} (hok : r.1 = .ok t') (hw : t.writableFor table = false) :
    ∃ path, s.ledger.UpTo table t.parent path ∧ path.length ≤ max ∧
      (∀ a ∈ path, r.2.ledger.Covers table a.id) ∧ r.2.ledger.Covers table t.id := by
  cases h with
  | covered hcov =>
    rw [hw] at hcov
    cases hcov
  | ended _ _ => cases hok
  | blocked _ _ _ _ _ => cases hok
  | @walked path s₁ _ _ hpath hlen hlook _ =>
    exact ⟨path, hpath, hlen, grantDown_covers (hpath.of_txns hlook.txns) (Prod.ext hok rfl)⟩

end

theorem Commitment.calls {max : Nat} {r : Except TxnError Timestamp × Services}
    (h : Commitment max t s r) :
    r.2.ledger.switch.calls ≤ s.ledger.switch.calls + (max + 1) := by
  cases h with
  | refused _ hcalls => exact Nat.le_succ_of_le hcalls
  | @walked ts globalTs s₁ _ hcalls =>
    have hlast : Act.Costs (fun _ => True) (fun s : Services => s.ledger.switch.calls) (1 + 0)
        (settle t ts globalTs) :=
      .bind ((update_calls t.id _).map _) fun _ => fun _ _ => ⟨trivial, Nat.le_refl _⟩
    exact Nat.le_trans (hlast s₁ trivial).2 (Nat.succ_le_succ hcalls)

/-- What holds of the elevation of `t` that ends with `r`, where at most `max` ancestors are looked
up. -/
structure SafeElevation (max : Nat) (t : Txn) (table : Table) (s : Services)
    (r : Except TxnError Txn × Services) : Prop where
  course : Elevation max t table s r
  /-- Besides the ancestors only the grants ask the ledger. -/
  calls : r.2.ledger.switch.calls ≤ s.ledger.switch.calls + (2 * max + 1)
  /-- Where the walk does not come to its end, nothing was changed. -/
  unchanged : ∀ e, r.1 = .error e → Blocks s.ledger table t.parent e →
    r.2.ledger.txns = s.ledger.txns
  /-- What is not recorded is an ancestor, or the transaction itself. -/
  missing : ∀ id, r.1 = .error (.notFound id) →
    s.ledger.Lacks table t.parent id ∨ id = t.id ∧ s.ledger.find? id = none
  /-- What succeeds leaves the whole path covered. -/
  covers : ∀ t', r.1 = .ok t' → t.writableFor table = false →
    ∃ path, s.ledger.UpTo table t.parent path ∧ path.length ≤ max ∧
      (∀ a ∈ path, r.2.ledger.Covers table a.id) ∧ r.2.ledger.Covers table t.id

/-- What holds of the commit of `t` that ends with `r`, where at most `max` ancestors are looked
up. -/
structure SafeCommitment (max : Nat) (t : Txn) (s : Services)
    (r : Except TxnError Timestamp × Services) : Prop where
  course : Commitment max t s r
  /-- Besides the ancestors only the last call asks the ledger. -/
  calls : r.2.ledger.switch.calls ≤ s.ledger.switch.calls + (max + 1)
  /-- What fails has changed nothing. -/
  unchanged : ∀ e, r.1 = .error e → r.2.ledger.txns = s.ledger.txns

/-- Whatever is recorded, and whatever transaction is given: while the ledger answers, an elevation
and a commit look up no more ancestors than the limit says, and they do so before they change
anything. An elevation that finds its walk blocked, by a circle, by too long a chain or by an
ancestor that is not recorded, has changed no record, nor has any commit that fails. After an
elevation that succeeds, the transaction and all above it up to the first that covered the table, or
up to the root, cover it. -/
theorem corrupt_fails_closed (config : Config) (s : Services) (hup : s.ledger.switch.Up) (t : Txn) :
    (∀ table, SafeElevation config.maxAncestorDepth.toNat t table s
      ((elevate config t table).exec s)) ∧
    SafeCommitment config.maxAncestorDepth.toNat t s ((commit config t).exec s) := by
  refine ⟨fun table => ?_, ?_⟩
  · have h := elevate_elevation config t table hup
    exact ⟨h, h.calls, fun _ => h.unchanged, fun _ => h.notFound, fun _ => h.covers⟩
  · have h := commit_commitment config t s
    refine ⟨h, h.calls, fun e he => ?_⟩
    rcases commit_cases config t s with ⟨_, _, hx, hs⟩ | ⟨_, _, _, _, -, -, -, -, hx, -⟩ <;>
      rw [hx] at he ⊢
    · exact hs.txns
    · cases he

/-! ## A record of broken chains -/

/-- A child of transaction `p`. -/
def orphan (id p : TxnId) : Txn :=
  { Txn.root id id .snapshot with parent := some p, dependent := true }

/-- Two transactions that are the parents of each other, both committed; one whose parent is not
recorded; one whose parent is not recorded, but which covers the table, and a child of it. -/
def corruptServices : Services where
  ledger :=
    { txns := [(orphan 1 2).finish (.committed 8 none), (orphan 2 1).finish (.committed 9 none),
        orphan 3 404, (orphan 4 404).grant "t", orphan 5 4] }

/-- The general rule at these records. Below the circle and below the missing parent nothing is
elevated, and below the circle nothing is committed. Below the record that covers the table, what
is missing above it makes no difference. -/
theorem corrupt_fails_closed_circle :
    (∃ fault s', (elevate {} (orphan 6 1) "t").exec corruptServices =
      (.error (.malformedAncestry fault), s') ∧ s'.ledger.txns = corruptServices.ledger.txns) ∧
    (∃ s', (elevate {} (orphan 3 404) "t").exec corruptServices = (.error (.notFound 404), s') ∧
      s'.ledger.txns = corruptServices.ledger.txns) ∧
    (∃ t' s', (elevate {} (orphan 5 4) "t").exec corruptServices = (.ok t', s') ∧
      s'.ledger.Covers "t" 5) ∧
    ∃ fault s', (commit {} (orphan 6 1)).exec corruptServices =
      (.error (.malformedAncestry fault), s') ∧ s'.ledger.txns = corruptServices.ledger.txns := by
  have hrule := corrupt_fails_closed {} corruptServices fun _ _ => rfl
  refine ⟨?_, ?_, ?_, ?_⟩
  · have hsafe := (hrule (orphan 6 1)).1 "t"
    have hfails : ((elevate {} (orphan 6 1) "t").exec corruptServices).1 =
        .error (.malformedAncestry (.cycleOrExcessDepth 1)) := by rfl
    exact ⟨_, _, Prod.ext hfails rfl, hsafe.unchanged _ hfails (.inl ⟨_, rfl⟩)⟩
  · have hsafe := (hrule (orphan 3 404)).1 "t"
    have hfails : ((elevate {} (orphan 3 404) "t").exec corruptServices).1 =
        .error (.notFound 404) := by rfl
    exact ⟨_, Prod.ext hfails rfl, hsafe.unchanged _ hfails (.inr ⟨404, rfl, .here rfl⟩)⟩
  · have hsafe := (hrule (orphan 5 4)).1 "t"
    have hok : ((elevate {} (orphan 5 4) "t").exec corruptServices).1 =
        .ok ((orphan 5 4).grant "t") := by rfl
    obtain ⟨path, -, -, -, hcov⟩ := hsafe.covers _ hok rfl
    exact ⟨_, _, Prod.ext hok rfl, hcov⟩
  · have hsafe := (hrule (orphan 6 1)).2
    have hfails : ((commit {} (orphan 6 1)).exec corruptServices).1 =
        .error (.malformedAncestry (.cycleOrExcessDepth 1)) := by rfl
    exact ⟨_, _, Prod.ext hfails rfl, hsafe.unchanged _ hfails⟩

end Lifecycle

end NestedTxn

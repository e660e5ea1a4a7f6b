import NestedTxn.Database.Session
import NestedTxn.Proofs.Lifecycle.Booked
import NestedTxn.Proofs.Resolver.Writers
import NestedTxn.Proofs.Row.Calls
import NestedTxn.Proofs.Visibility.Frames

/-!
# What leaves records, counts and row locks alone

`Services.Quiet`: no record changed, none was counted, and the row locks are those before. Whatever
does not answer, this holds of every read through a filter (`SnapshotFilter.load_quiet`, `read_quiet`,
`scan_quiet`), of a read of a session once it has its reader (`Session.withFilter_quiet`), and of the
writers of resolutions (`Services.runWriters_quiet`, `Database.shutdown_quiet`).
-/

namespace NestedTxn

namespace Services

/-- No record changed, none was counted, and the row locks are those before. -/
structure Quiet (s s' : Services) : Prop extends s.SameBooks s' where
  locks : s'.rows.locks = s.rows.locks

variable {σ ε ε' α : Type} {s s' : Services}

theorem Quiet.of_eq (ht : s'.ledger.txns = s.ledger.txns) (hc : s'.counters = s.counters)
    (hl : s'.rows.locks = s.rows.locks) : s.Quiet s' :=
  ⟨⟨ht, fun _ _ _ => by rw [hc]⟩, hl⟩

theorem Quiet.refl (s : Services) : s.Quiet s := .of_eq rfl rfl rfl

theorem Quiet.trans (s s' s'' : Services) (h : s.Quiet s') (h' : s'.Quiet s'') : s.Quiet s'' :=
  ⟨SameBooks.trans _ _ _ h.toSameBooks h'.toSameBooks, h'.locks.trans h.locks⟩

/-- Of services beside something else. -/
def QuietBeside (p p' : σ × Services) : Prop := p.2.Quiet p'.2

theorem QuietBeside.refl (p : σ × Services) : QuietBeside p p := Quiet.refl p.2

theorem QuietBeside.trans (p p' p'' : σ × Services) (h : QuietBeside p p')
    (h' : QuietBeside p' p'') : QuietBeside p p'' :=
  Quiet.trans _ _ _ h h'

theorem onSnd_quiet {a : Act Services ε α} (h : Act.Keeps Quiet a) :
    Act.Keeps QuietBeside (Act.onSnd a : Act (σ × Services) ε α) :=
  fun p => h p.2

theorem wrap_quiet {a : Act Services ε α} (h : Act.Keeps Quiet a) (f : ε → ε') :
    Act.Keeps Quiet (a.wrap f) :=
  fun s => h s

theorem fetch_quiet (id : TxnId) : Act.Keeps Quiet (onLedger (Ledger.fetch id)) := by
  intro s
  rcases exec_fetch_cases id s with he | he <;> rw [he] <;> exact .of_eq rfl rfl rfl

theorem onRows_quiet {call : Act RowStore RowFault α}
    (h : Act.Keeps (fun r r' => r'.locks = r.locks) call) : Act.Keeps Quiet (onRows call) := by
  intro s
  rw [exec_onRows]
  exact .of_eq rfl rfl (h s.nextRows)

/-- Some counters count no transactions. -/
theorem count_quiet {c : Counter} (hc : c.kind? = none) :
    Act.Keeps Quiet (count c : Act Services ε Unit) := by
  refine fun s => ⟨⟨rfl, fun d kind hd => ?_⟩, rfl⟩
  have hne : c ≠ d := fun h => by
    rw [← h, hc] at hd
    cases hd
  exact (Counters.get_bump s.counters c d).trans (if_neg hne)

theorem report_quiet (e : Event) : Act.Keeps Quiet (report e : Act Services ε Unit) :=
  fun _ => .of_eq rfl rfl rfl

theorem drop_quiet (n : Notice) (reason : DropReason) :
    Act.Keeps Quiet (drop n reason : Act Services ε Unit) :=
  .bind .trans (count_quiet rfl) fun _ => report_quiet _

theorem offer_quiet (h : Nat) (origin : Origin) (n : Notice) :
    Act.Keeps Quiet (offer h origin n : Act Services ε Unit) := by
  refine .bind .trans .refl fun s => ?_
  split
  · exact .refl
  · split
    · exact drop_quiet n .closed
    · split
      · exact drop_quiet n .full
      · exact .bind .trans (fun _ => .of_eq rfl rfl rfl) fun _ => count_quiet rfl

end Services

namespace RowStore

variable {key : Key}

/-- Reads, scans and markers do not touch the locks. -/
theorem demandRows_locks : Act.Keeps (fun r r' => r'.locks = r.locks) demandRows := by
  refine .bind (fun _ _ _ h h' => h'.trans h) (fun r => ?_) fun _ => ?_
  · rw [demand, Act.exec_bind_ok (Act.exec_get r)]
    split <;> rfl
  · intro r
    rw [Act.exec_bind_ok (Act.exec_get r)]
    split <;> rfl

theorem read_locks (key : Key) : Act.Keeps (fun r r' => r'.locks = r.locks) (read key) :=
  .bind (fun _ _ _ h h' => h'.trans h) demandRows_locks fun _ _ => rfl

theorem scan_locks (start : Key) (stop : Option Key) :
    Act.Keeps (fun r r' => r'.locks = r.locks) (scan start stop) := by
  refine .bind (fun _ _ _ h h' => h'.trans h) demandRows_locks fun _ r => ?_
  rw [Act.exec_bind_ok (Act.exec_get r)]
  split <;> rfl

theorem mark_locks (key : Key) (writer : TxnId) (res : Resolution) :
    Act.Keeps (fun r r' => r'.locks = r.locks) (mark key writer res) :=
  .bind (fun _ _ _ h h' => h'.trans h) demandRows_locks fun _ _ => rfl

end RowStore

/-! ## Filters -/

namespace SnapshotFilter

open Services

theorem classifying_quiet : Classifying QuietBeside fun _ => True where
  toSearching := .of_fetch .refl .trans (fun p _ => Quiet.refl p.2)
    (fun id => .of_keeps (onSnd_quiet (fetch_quiet id)) fun _ => trivial) fun _ => trivial
  note p _ := Quiet.refl p.2
  offer h n := .of_keeps (onSnd_quiet (offer_quiet h .read n)) fun _ => trivial
  count := .of_keeps (onSnd_quiet (count_quiet rfl)) fun _ => trivial
  report e := .of_keeps (onSnd_quiet (report_quiet e)) fun _ => trivial

theorem load_quiet (reader : Txn) (sink : Option Sink) (maxDepth : Nat) :
    Act.Keeps Quiet (load reader sink maxDepth) :=
  (classifying_quiet.toSearching.load (fun _ => trivial) reader sink maxDepth).keeps

theorem read_quiet (key : Key) : Act.Keeps QuietBeside (read key) :=
  .bind .trans (onSnd_quiet (wrap_quiet (onRows_quiet (RowStore.read_locks key)) _))
    fun _ => .bind .trans (classifying_quiet.firstVisible _).keeps fun _ => .refl

theorem scan_quiet (start : Key) (stop : Option Key) : Act.Keeps QuietBeside (scan start stop) :=
  .bind .trans
    (onSnd_quiet (wrap_quiet (onRows_quiet (RowStore.scan_locks start stop)) _))
    fun _ => (classifying_quiet.visibleRows none _).keeps

end SnapshotFilter

/-! ## Writers of resolutions -/

namespace Services

variable {ε : Type}

theorem writeBack_quiet (n : Notice) :
    Act.Keeps Quiet (writeBack n : Act Services ε Unit) := by
  have hmark : Act.Keeps Quiet (mark onRows n) :=
    .bind .trans (onRows_quiet (RowStore.mark_locks _ _ _)) fun _ => report_quiet _
  refine .bind .trans (fun s => hmark s) fun r => ?_
  cases r with
  | ok _ => exact count_quiet rfl
  | error fault => exact report_quiet _

theorem writing_quiet : Writing Quiet where
  refl := .refl
  trans := .trans
  queues _ _ _ := .of_eq rfl rfl rfl
  writeBack := writeBack_quiet

theorem runWriters_quiet : Act.Keeps Quiet (runWriters : Act Services ε Unit) :=
  writing_quiet.runWriters

end Services

theorem Database.shutdown_quiet {ε : Type} (db : Database) :
    Act.Keeps Services.Quiet (db.shutdown : Act Services ε Unit) :=
  Services.writing_quiet.shutdown db

/-! ## Reads of a session -/

namespace Session

open Services

/-- Once it has a reader, a read is quiet, and leaves the connection alone. -/
theorem withFilter_quiet {α : Type} {db : Database} {a : Act (SnapshotFilter × Services) TxnError α}
    (h : Act.Keeps QuietBeside a) {p q p' : Connection × Services} {x : Except TxnError Txn}
    {y : Except SessionError α} (hx : (Connection.activeTxn db.config).exec p = (x, q))
    (hy : (withFilter db a).exec p = (y, p')) : p'.1 = q.1 ∧ q.2.Quiet p'.2 := by
  rw [withFilter, onConnection, Act.exec_wrap] at hy
  cases x with
  | error e =>
    rw [Act.exec_bind_error hx] at hy
    cases hy
    exact ⟨rfl, .refl _⟩
  | ok reader =>
    rw [Act.exec_bind_ok hx] at hy
    obtain ⟨_, rfl⟩ := Prod.mk.inj hy
    exact Act.Keeps.bind_at
      (R := fun (p p' : Connection × Services) => p'.1 = p.1 ∧ p.2.Quiet p'.2)
      (fun _ _ _ h h' => ⟨h'.1.trans h.1, Quiet.trans _ _ _ h.2 h'.2⟩)
      ⟨rfl, SnapshotFilter.load_quiet reader _ _ q.2⟩ fun filter p => ⟨rfl, h (filter, p.2)⟩

end Session

end NestedTxn

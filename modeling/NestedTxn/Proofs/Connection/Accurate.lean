import NestedTxn.Proofs.Connection.Moves
import NestedTxn.Proofs.Lifecycle.Booked

/-!
# Counting by the copies on a stack

An elevation asks the entry of the stack, not the record, whether the transaction covers a table
already. So what it counts is right as long as the entries are the records.

* `Connection.Accurate max others p`: a seated connection in a sound and booked ledger, whose entries
  are the records. So are the transactions `others`, and none of them is on the stack.
* `Raised`, `elevateStack_raised`: an elevation keeps that entry by entry, also where it fails half
  way.
* `accurate_stepwise`, `commit_accurate`: so does every step of a connection, and every commit,
  whatever the clock and the ledger answer.
-/

namespace NestedTxn

namespace Connection

open Ledger Services

/-- The ledger is booked, and the entries are the records. So are `others`, which are not on the
stack. -/
structure Accurate (max : Nat) (others : Txn → Prop) (p : Connection × Services) : Prop where
  sound : p.2.ledger.Sound max
  seated : p.1.Seated p.2.ledger
  booked : p.2.Booked
  copied : ∀ e ∈ p.1.stack, p.2.ledger.find? e.txn.id = some e.txn
  found : ∀ t, others t → p.2.ledger.find? t.id = some t
  absent : ∀ t, others t → t.id ∉ p.1.ids

/-- An accurate connection stays so. -/
def StaysAccurate (max : Nat) (others : Txn → Prop) (p p' : Connection × Services) : Prop :=
  Accurate max others p → Accurate max others p'

variable {config : Config} {max : Nat} {others : Txn → Prop} {c c' : Connection} {s s' : Services}
  {p p' : Connection × Services} {e : Savepoint} {st : List Savepoint} {table : Table} {t u : Txn}

theorem StaysAccurate.refl (max : Nat) (others : Txn → Prop) (p : Connection × Services) :
    StaysAccurate max others p p := id

theorem StaysAccurate.trans (max : Nat) (others : Txn → Prop) (p p' p'' : Connection × Services)
    (h : StaysAccurate max others p p') (h' : StaysAccurate max others p' p'') :
    StaysAccurate max others p p'' :=
  fun ha => h' (h ha)

namespace Accurate

/-- What comes onto the stack is new, so the others stay off it. -/
theorem moved (h : Accurate max others p) (hm : Moved max p p') (hb : p'.2.Booked)
    (hc : ∀ e ∈ p'.1.stack, p'.2.ledger.find? e.txn.id = some e.txn)
    (ho : ∀ id ∉ p.1.ids, p.2.ledger.find? id ≠ none →
      p'.2.ledger.find? id = p.2.ledger.find? id) : Accurate max others p' where
  sound := hm.sound
  seated := hm.seated
  booked := hb
  copied := hc
  found t ht := by
    have hf := h.found t ht
    rw [ho _ (h.absent t ht) (by simp [hf]), hf]
  absent t ht hid := by
    rcases hm.fresh _ hid with hid | hn
    · exact h.absent t ht hid
    · rw [h.found t ht] at hn
      cases hn

/-- The stack and the records stay. -/
theorem stay (h : Accurate config.maxAncestorDepth.toNat others p) (hs : Shifts config p p')
    (hst : p'.1.stack = p.1.stack) (hr : p.2.Records p.2.ledger p'.2) (hb : p'.2.Booked) :
    Accurate config.maxAncestorDepth.toNat others p' := by
  refine h.moved (hs.moves h.sound h.seated) hb (fun e he => ?_) fun id _ _ => hr.find? id
  rw [hr.find?]
  exact h.copied e (hst ▸ he)

/-- A new record comes onto the stack. -/
theorem push (h : Accurate config.maxAncestorDepth.toNat others p) (hs : Shifts config p p')
    {name : String} (hst : p'.1.stack = ⟨name, t⟩ :: p.1.stack)
    (hf : p.2.ledger.find? t.id = none) (hr : p.2.Records (p.2.ledger.insert t) p'.2)
    (hb : p'.2.Booked) : Accurate config.maxAncestorDepth.toNat others p' := by
  have hold : ∀ id, p.2.ledger.find? id ≠ none →
      p'.2.ledger.find? id = p.2.ledger.find? id := by
    intro id hid
    rw [hr.find?, find?_insert, if_neg fun heq => hid (by rw [← heq, hf])]
  refine h.moved (hs.moves h.sound h.seated) hb ?_ fun id _ => hold id
  rw [hst]
  refine List.forall_mem_cons.2 ⟨by rw [hr.find?, find?_insert, if_pos rfl], fun e he => ?_⟩
  have hc := h.copied e he
  rw [hold _ (by simp [hc]), hc]

/-- The record of an entry is finished, and the entry leaves the stack with all above it. -/
theorem finish (h : Accurate config.maxAncestorDepth.toNat others p) (hs : Changes config p p')
    (pre : List Savepoint) (hst : p.1.stack = pre ++ p'.1.stack) (he : e ∈ pre) {o : Outcome}
    (hu : p.2.ledger.find? e.txn.id = some u)
    (hr : p.2.Records (p.2.ledger.replace (u.finish o)) p'.2) (hb : p'.2.Booked) :
    Accurate config.maxAncestorDepth.toNat others p' := by
  have hold : ∀ id, id ≠ e.txn.id → p'.2.ledger.find? id = p.2.ledger.find? id := by
    intro id hid
    rw [hr.find?, find?_replace, Txn.finish_id, id_of_find? hu, if_neg hid.symm]
  refine h.moved (hs.moves h.sound h.seated) hb (fun d hd => ?_) fun id hid _ => hold id ?_
  · have hnd := h.seated.stacked.nodup
    rw [hst, List.map_append] at hnd
    have hne : d.txn.id ≠ e.txn.id := fun heq =>
      (List.nodup_append.1 hnd).2.2 _ (List.mem_map_of_mem he) _ (List.mem_map_of_mem hd) heq.symm
    rw [hold _ hne]
    exact h.copied d (hst ▸ List.mem_append_right _ hd)
  · rintro rfl
    refine hid ?_
    rw [ids, hst, List.map_append]
    exact List.mem_append_left _ (List.mem_map_of_mem he)

/-- A stack is seated wherever its entries are the records. -/
theorem seated_of_found (h : Accurate max others p) {l : Ledger}
    (hf : ∀ e ∈ p.1.stack, l.find? e.txn.id = some e.txn) : p.1.Seated l := by
  refine ⟨h.seated.idle, h.seated.stacked.keep fun e he t ht => ?_⟩
  rw [h.copied e he] at ht
  cases ht
  exact ⟨e.txn, hf e he, rfl⟩

/-- No record changes, and none is counted. -/
theorem sameBooks (h : Accurate max others p) (hst : p'.1 = p.1) (hb : p.2.SameBooks p'.2) :
    Accurate max others p' := by
  have hcopied : ∀ e ∈ p.1.stack, p'.2.ledger.find? e.txn.id = some e.txn := fun e he =>
    (find?_congr hb.txns _).trans (h.copied e he)
  exact
    { sound := h.sound.of_txns hb.txns
      seated := hst ▸ h.seated_of_found hcopied
      booked := h.booked.same hb
      copied := hst ▸ hcopied
      found := fun t ht => (find?_congr hb.txns _).trans (h.found t ht)
      absent := hst ▸ h.absent }

end Accurate

/-! ## What is counted in steps -/

/-- What is booked beside a connection stays so. -/
def StaysBooked (p p' : Connection × Services) : Prop := p.2.StaysBooked p'.2

theorem StaysBooked.refl (p : Connection × Services) : StaysBooked p p := id

theorem StaysBooked.trans (p p' p'' : Connection × Services) (h : StaysBooked p p')
    (h' : StaysBooked p' p'') : StaysBooked p p'' :=
  fun hb => h' (h hb)

theorem onSnd_booked {α : Type} {a : Act Services TxnError α}
    (h : Act.Keeps Services.StaysBooked a) : Act.Keeps StaysBooked (Act.onSnd a) :=
  fun p => h p.2

theorem trace_booked (done : Bool) (call : ConnectionCall) (subject : String) :
    Act.Keeps StaysBooked (trace done call subject) :=
  fun p => (sameBooks_reported p.2 _).staysBooked

theorem leaf_booked : Act.Keeps StaysBooked leaf := by
  refine .bind .trans .refl fun p => ?_
  split <;> exact .refl

theorem ensureActive_booked (config : Config) : Act.Keeps StaysBooked (ensureActive config) := by
  refine .bind .trans .refl fun p => ?_
  split
  · exact .refl
  · exact .refl
  · exact .bind .trans (onSnd_booked (Lifecycle.beginRoot_booked _)) fun _ => .refl

theorem pushChild_booked (config : Config) (name : String) :
    Act.Keeps StaysBooked (pushChild config name) :=
  .bind .trans leaf_booked fun t =>
    .bind .trans (onSnd_booked (Lifecycle.beginChild_booked config t none false)) fun _ => .refl

/-- The ways in which `finish` ends a transaction, which is counted. -/
structure BooksDrops (finish : Txn → Act Services TxnError Unit) : Prop where
  drops : Drops finish
  booked : ∀ t, Act.Keeps Services.StaysBooked (finish t)

theorem rollback_booksDrops : BooksDrops Lifecycle.rollback :=
  ⟨rollback_drops, Lifecycle.rollback_booked⟩

theorem commit_booksDrops (config : Config) :
    BooksDrops fun t => discard (Lifecycle.commit config t) :=
  ⟨commit_drops config, fun t => (Lifecycle.commit_booked config t).map _⟩

theorem dropTop_booked {finish : Txn → Act Services TxnError Unit} (hfin : BooksDrops finish) :
    Act.Keeps StaysBooked (dropTop finish) :=
  .bind .trans leaf_booked fun t => .bind .trans (onSnd_booked (hfin.booked t)) fun _ => .refl

theorem commit_booked (config : Config) : Act.Keeps StaysBooked (commit config) := by
  rw [commit_eq]
  refine .bind .trans (trace_booked _ _ _) fun _ => .bind .trans .refl fun p => ?_
  split
  · exact .bind .trans (onSnd_booked fun s => (sameBooks_reported s _).staysBooked) fun _ => .refl
  · exact .refl
  · split
    · exact .bind .trans .refl fun _ => .refl
    · next bottom _ =>
      have hall : Act.Keeps StaysBooked (dropAll config bottom) :=
        .bind .trans (onSnd_booked (Lifecycle.commit_booked config bottom)) fun _ =>
          .bind .trans .refl fun _ => .refl
      exact .bind .trans hall fun _ => .bind .trans (trace_booked _ _ _) fun _ => .refl

/-! ## Steps -/

section

variable (config others)

/-- An idle connection begins a root, which is counted. -/
theorem ensureActive_accurate :
    Act.Keeps (StaysAccurate config.maxAncestorDepth.toNat others) (ensureActive config) := by
  intro p h
  have hs := ensureActive_shifts config p
  have hb := ensureActive_booked config p h.booked
  rcases ensureActive_cases config p with
    ⟨err, s', hx, hr⟩ | ⟨_, hx⟩ | ⟨ts, s', hp, _, hf, hx, hr, _⟩ <;> rw [hx] at hs hb ⊢
  · exact h.stay hs rfl hr hb
  · exact h
  · exact h.push hs rfl hf hr hb

/-- A child of the top entry begins, and is counted. -/
theorem pushChild_accurate (name : String) :
    Act.Keeps (StaysAccurate config.maxAncestorDepth.toNat others) (pushChild config name) := by
  intro p h
  have hs := pushChild_shifts config name p
  have hb := pushChild_booked config name p h.booked
  rcases pushChild_cases config name p with
    ⟨err, s', hx, hr⟩ | ⟨e, rest, ts, d, s', hst, _, _, _, hf, hx, hr, _⟩ <;> rw [hx] at hs hb ⊢
  · exact h.stay hs rfl hr hb
  · exact h.push hs rfl hf hr hb

/-- The top entry is ended, which is counted, and leaves the stack. -/
theorem dropTop_accurate {finish : Txn → Act Services TxnError Unit} (hfin : BooksDrops finish) :
    Act.Keeps (StaysAccurate config.maxAncestorDepth.toNat others) (dropTop finish) := by
  intro p h
  have hs := @dropTop_shifts config _ hfin.drops p
  have hb := dropTop_booked hfin p h.booked
  cases hst : p.1.stack with
  | nil =>
    rw [dropTop, Act.exec_bind_error (exec_leaf_nil hst)]
    exact h
  | cons e rest =>
    have hpop : pop p.1 = { p.1 with stack := rest } := by rw [pop, hst, List.tail_cons]
    rw [dropTop, Act.exec_bind_ok (exec_leaf_cons hst), Act.exec_bind, Act.exec_onSnd] at hs hb ⊢
    rcases hfin.drops e.txn p.2 with
      ⟨err, s', hx, hr⟩ | ⟨s', hx, _, hdone⟩ | ⟨o, u, s', hu, _, hx, _, hr⟩ <;>
      simp only [hx, exec_alter, hpop] at hs hb ⊢
    · exact h.stay hs rfl hr hb
    · exact (h.seated.perched.not_finished hst hdone).elim
    · exact h.finish (.inl hs) [e] hst (by simp) hu hr hb

end

/-! ## Elevation -/

/-- What an elevation of the stack `st` makes of it, with what it answers: what is elevated is counted,
the entries are the records, and no other record changes. If it gets to the top, it answers the top
entry, which covers the table. -/
structure Raised (table : Table) (st : List Savepoint) (s : Services) (st' : List Savepoint)
    (answer : Except TxnError (Option Txn)) (s' : Services) : Prop where
  booked : s'.Booked
  copied : ∀ e ∈ st', s'.ledger.find? e.txn.id = some e.txn
  ids : st'.map (·.txn.id) = st.map (·.txn.id)
  others : ∀ id ∉ st.map (·.txn.id), s'.ledger.find? id = s.ledger.find? id
  top : ∀ t?, answer = .ok t? → t? = st'.head?.map (·.txn)
  covers : ∀ t, answer = .ok (some t) → t.writableFor table = true

section

variable {rest st' : List Savepoint} {s₁ s₂ : Services}
  {below answer : Except TxnError (Option Txn)} {parent : Option Txn}

/-- One more entry, whose record is `t` then. -/
theorem Raised.cons (h : Raised table rest s st' below s₁)
    (hnot : e.txn.id ∉ rest.map (·.txn.id)) (hb : s₂.Booked)
    (hothers : ∀ id, id ≠ e.txn.id → s₂.ledger.find? id = s₁.ledger.find? id)
    (ht : s₂.ledger.find? e.txn.id = some t)
    (hanswer : ∀ t?, answer = .ok t? → t? = some t ∧ t.writableFor table = true) :
    Raised table (e :: rest) s ({ e with txn := t } :: st') answer s₂ where
  booked := hb
  copied := by
    refine List.forall_mem_cons.2 ⟨?_, fun d hd => ?_⟩
    · dsimp only
      rw [id_of_find? ht]
      exact ht
    · have hid : d.txn.id ∈ rest.map (·.txn.id) := h.ids ▸ List.mem_map_of_mem hd
      rw [hothers _ fun heq => hnot (heq ▸ hid)]
      exact h.copied d hd
  ids := by rw [List.map_cons, h.ids, List.map_cons, id_of_find? ht]
  others id hid := by
    rw [List.map_cons, List.mem_cons, not_or] at hid
    rw [hothers id hid.1, h.others id hid.2]
  top t? ha := (hanswer t? ha).1
  covers t' ha := by
    obtain ⟨heq, hw⟩ := hanswer (some t') ha
    cases heq
    exact hw

/-- An entry is a root, or the child of the entry below it that was just elevated. -/
theorem Raised.under (h : Raised table rest s st' (.ok parent) s₁)
    (hst : s.ledger.Stacked (e :: rest)) :
    e.txn.parent = none ∨
      parent.any fun p => e.txn.parent = some p.id && p.writableFor table := by
  have hparent : e.txn.parent = parent.map (·.id) := by
    rw [h.top parent rfl, Option.map_map]
    have hhead := congrArg List.head? h.ids
    rw [List.head?_map, List.head?_map] at hhead
    cases hst with
    | cons _ _ _ hp _ => exact hp.trans hhead.symm
  cases parent with
  | none => exact .inl hparent
  | some p => exact .inr (by simp [hparent, h.covers p rfl])

end

/-- The entries are elevated one by one, bottom first, until one fails. -/
theorem elevateStack_raised (config : Config) (table : Table) {st : List Savepoint}
    {s : Services} (hst : s.ledger.Stacked st)
    (hcopied : ∀ e ∈ st, s.ledger.find? e.txn.id = some e.txn) (hb : s.Booked) :
    ∃ st' answer s', (elevateStack config table st).exec s = (.ok (st', answer), s') ∧
      Raised table st s st' answer s' := by
  induction st with
  | nil =>
    refine ⟨[], .ok none, s, rfl, hb, hcopied, rfl, fun _ _ => rfl, fun _ h => ?_, fun _ h => ?_⟩
    · cases h
      rfl
    · cases h
  | cons e rest ih =>
    obtain ⟨rest', below, s₁, hx, h⟩ := ih hst.tail fun d hd => hcopied d (List.mem_cons_of_mem _ hd)
    have hnot : e.txn.id ∉ rest.map (·.txn.id) := (List.nodup_cons.1 hst.nodup).1
    have hfind : s₁.ledger.find? e.txn.id = some e.txn :=
      (h.others _ hnot).trans (hcopied e (List.mem_cons_self ..))
    rw [elevateStack, Act.exec_bind_ok hx]
    cases below with
    | error err =>
      exact ⟨_, _, s₁, rfl, h.cons hnot h.booked (fun _ _ => rfl) hfind fun _ ha => by cases ha⟩
    | ok parent =>
      rcases hy : (Lifecycle.elevateUnder config e.txn table parent).exec s₁ with ⟨x, s₂⟩
      obtain ⟨hb₂, hothers, hrecord⟩ :=
        Lifecycle.elevateUnder_booked config (h.under hst) hfind h.booked hy
      cases x with
      | error err =>
        refine ⟨e :: rest', .error err, s₂, by simp [Act.exec_bind, hy], ?_⟩
        exact h.cons hnot hb₂ hothers hrecord fun _ ha => by cases ha
      | ok t =>
        refine ⟨{ e with txn := t } :: rest', .ok (some t), s₂, by simp [Act.exec_bind, hy], ?_⟩
        refine h.cons hnot hb₂ hothers hrecord fun _ ha => ?_
        cases ha
        exact ⟨rfl, (Lifecycle.elevateUnder_elevated hy).covers⟩

section

variable (config others)

/-- The entries are elevated, and what is elevated is counted. -/
theorem elevateEntries_accurate (table : Table) :
    Act.Keeps (StaysAccurate config.maxAncestorDepth.toNat others)
      (elevateEntries config table) := by
  intro p h
  obtain ⟨st', answer, s', hx, hr⟩ :=
    elevateStack_raised config table h.seated.stacked h.copied h.booked
  have hs := elevateEntries_shifts config table p
  have hexec : ((elevateEntries config table).exec p).2 = ({ p.1 with stack := st' }, s') := by
    simp only [elevateEntries, Act.exec_bind, Act.exec_get, Act.exec_onSnd, hx, exec_alter]
    cases answer <;> rfl
  rw [hexec] at hs ⊢
  exact h.moved (hs.moves h.sound h.seated) hr.booked hr.copied fun id hid _ => hr.others id hid

/-- The steps of an accurate connection keep it accurate. -/
theorem accurate_stepwise :
    Stepwise config (StaysAccurate config.maxAncestorDepth.toNat others) where
  refl := .refl _ _
  trans := .trans _ _
  report p e h := h.sameBooks rfl (sameBooks_reported p.2 e)
  suppress p on h := h.stay ((shifts_stepwise config).suppress p on) rfl (.refl p.2) h.booked
  settle p h := h.stay ((shifts_stepwise config).settle p) (settle_stack p.1) (.refl p.2) h.booked
  rest p phase hp h :=
    h.stay ((shifts_stepwise config).rest p phase hp) rfl (.refl p.2) h.booked
  ensureActive := ensureActive_accurate config others
  pushChild := pushChild_accurate config others
  elevateEntries := elevateEntries_accurate config others
  rollbackTop := dropTop_accurate config others rollback_booksDrops
  commitTop := dropTop_accurate config others (commit_booksDrops config)

/-- A commit is counted once, for the bottom entry. -/
theorem commit_accurate :
    Act.Keeps (StaysAccurate config.maxAncestorDepth.toNat others) (commit config) := by
  intro p h
  have hs := commit_changes config p
  have hb := commit_booked config p h.booked
  rcases commit_cases config p with
    ⟨err, s', hx, hr⟩ | ⟨c', s', hx, hidle, hst, hr⟩ | ⟨e, u, ts, globalTs, p', hx, hc⟩ <;>
    rw [hx] at hs hb ⊢
  · exact h.stay (shift_of_records hr) rfl hr hb
  · exact h.stay (Shift.stay hst (fun _ => hidle) hr).shifts hst hr hb
  · have hempty : p'.1.stack = [] := by rw [hc.connection]
    exact h.finish hs p.1.stack (by rw [hempty, List.append_nil])
      (List.mem_of_getLast? hc.bottom) hc.found hc.records hb

end

end Connection

end NestedTxn

import NestedTxn.Proofs.Connection.Pool
import NestedTxn.Proofs.Lifecycle.Copies

/-!
# Stacks of copies

Callers of the lifecycle may end or elevate a transaction that is an entry of a connection. Then the
entry is behind its record, but still a copy of it.

* `Connection.Held c l`: the entries are copies, and each is a child of the next one.
* `Connection.StaysHeld max p p'`: what every call of a connection does to a held connection in a
  proper ledger (`staysHeld_stepwise`, `Call.run_staysHeld`).
* `Pool.FreeStep`, `Pool.FreeReach`: runs of a pool in which the lifecycle may be called with any
  transaction that was handed out. All connections stay held (`FreeReach.genuine`).
-/

namespace NestedTxn

namespace Connection

open Ledger Services

/-- The entries of the stack are copies, and each is a child of the next one. -/
structure Held (c : Connection) (l : Ledger) : Prop where
  copied : ∀ e ∈ c.stack, l.Copied e.txn
  linked : c.Linked
  /-- Only an active connection has entries. -/
  idle : c.phase ≠ .active → c.stack = []

/-- What happened to the records is a sequence of edits. A proper ledger stays so, and so does a
held connection. -/
structure StaysHeld (max : Nat) (p p' : Connection × Services) : Prop where
  edits : p.2.Edits p'.2
  held : p.2.ledger.Proper max → p.1.Held p.2.ledger →
    p'.2.ledger.Proper max ∧ p'.1.Held p'.2.ledger

variable {config : Config} {max : Nat} {c c' : Connection} {l l' : Ledger} {s s' : Services}
  {p p' : Connection × Services} {t u : Txn}

theorem StaysHeld.refl (max : Nat) (p : Connection × Services) : StaysHeld max p p :=
  ⟨.refl _, fun hp hh => ⟨hp, hh⟩⟩

theorem StaysHeld.trans (max : Nat) (p p' p'' : Connection × Services) (h : StaysHeld max p p')
    (h' : StaysHeld max p' p'') : StaysHeld max p p'' :=
  ⟨h.edits.trans _ _ _ h'.edits, fun hp hh => (h.held hp hh).elim h'.held⟩

namespace Held

theorem of_nil (hst : c.stack = []) : c.Held l where
  copied e he := by
    rw [hst] at he
    cases he
  linked := by
    rw [Linked, hst]
    exact .nil
  idle _ := hst

/-- The stack stays, whatever becomes of the records. -/
theorem leads (h : c.Held l) (hl : l.Leads l') : c.Held l' :=
  ⟨fun e he => (h.copied e he).leads hl, h.linked, h.idle⟩

/-- A new record comes onto the stack. -/
theorem push (h : c.Held l) {name : String} (hs : l.Sound max) (ht : l.find? t.id = some t)
    (hpar : ∀ d ∈ c.stack.head?, t.parent = some d.txn.id)
    (hst : c'.stack = ⟨name, t⟩ :: c.stack) (hph : c'.phase = .active) : c'.Held l where
  copied := by
    rw [hst]
    exact List.forall_mem_cons.2 ⟨.of_find? ht, h.copied⟩
  linked := by
    rw [Linked, hst, List.isChain_cons]
    refine ⟨fun d hd => ⟨hpar d hd, ?_⟩, h.linked⟩
    -- the record of the parent is as deep as its copy
    obtain ⟨-, u, hu, hdepth⟩ := (hs t.id t ht).child _ (hpar d hd)
    obtain ⟨v, hv, hdv⟩ := h.copied d (List.mem_of_mem_head? hd)
    rw [hu] at hv
    cases hv
    rw [hdepth, Txn.depth_of_origin hdv.origin]
  idle hn := absurd hph hn

end Held

/-! ## Steps -/

/-- What is left of the stack is a lower part of it. -/
theorem staysHeld_of_suffix (hst : c'.stack <:+ c.stack)
    (hph : c'.phase ≠ .active → c.phase ≠ .active ∨ c'.stack = []) (hedits : s.Edits s')
    (hproper : s.ledger.Proper max → s'.ledger.Proper max) : StaysHeld max (c, s) (c', s') := by
  refine ⟨hedits, fun hp hh => ⟨hproper hp, fun e he => ?_, hh.linked.suffix hst, fun hn => ?_⟩⟩
  · exact (hh.copied e (hst.subset he)).leads hedits.leads
  · rcases hph hn with hold | hnil
    · rw [hh.idle hold] at hst
      exact List.suffix_nil.1 hst
    · exact hnil

/-- No record changes. -/
theorem staysHeld_of_records (hst : c'.stack <:+ c.stack)
    (hph : c'.phase ≠ .active → c.phase ≠ .active ∨ c'.stack = []) (hr : s.Records s.ledger s') :
    StaysHeld max (c, s) (c', s') :=
  staysHeld_of_suffix hst hph hr.edits fun hp => hp.of_txns hr.txns

/-- A record is finished. -/
theorem staysHeld_of_finish (hst : c'.stack <:+ c.stack)
    (hph : c'.phase ≠ .active → c.phase ≠ .active ∨ c'.stack = []) {id : TxnId} {o : Outcome}
    (hu : s.ledger.find? id = some u) (ha : u.state = .active)
    (hr : s.Records (s.ledger.replace (u.finish o)) s') : StaysHeld max (c, s) (c', s') :=
  staysHeld_of_suffix hst hph (.single (.finish o hu ha hr.txns)) fun hp =>
    (hp.finish hu ha o).of_txns hr.txns

/-- A transaction begins, a child of the top entry if there is one, and comes onto the stack. -/
theorem begin_staysHeld (call : Lifecycle.Call) {a : Act Services TxnError Txn}
    {push : Txn → Connection → Connection} (hrun : call.run config = (fun t => [t]) <$> a)
    (hel : call.elevates = false)
    (hfound : ∀ {s t s'}, a.exec s = (.ok t, s') → s'.ledger.find? t.id = some t)
    (hcopied : p.1.Held p.2.ledger → ∀ t ∈ call.subjects, p.2.ledger.Copied t)
    (hpush : p.1.Held p.2.ledger → ∀ t s', a.exec p.2 = (.ok t, s') →
      (∀ d ∈ p.1.stack.head?, t.parent = some d.txn.id) ∧ (push t p.1).phase = .active ∧
        ∃ name, (push t p.1).stack = ⟨name, t⟩ :: p.1.stack) :
    StaysHeld config.maxAncestorDepth.toNat p
      ((do let t ← Act.onSnd a; alter (push t) : Act (Connection × Services) TxnError Unit).exec
        p).2 := by
  have hedits := call.run_edits config p.2
  rw [hrun, Act.exec_map] at hedits
  rw [Act.exec_bind, Act.exec_onSnd]
  rcases hx : a.exec p.2 with ⟨e | t, s'⟩
  · have hfailed : (call.run config).exec p.2 = (.error e, s') := by
      rw [hrun, Act.exec_map, hx]
      rfl
    have htxns := Lifecycle.Call.run_failed hel hfailed
    exact staysHeld_of_suffix List.suffix_rfl .inl (.single (.look htxns)) fun hp =>
      hp.of_txns htxns
  · rw [hx] at hedits
    refine ⟨hedits, fun hp hh => ?_⟩
    have hafter := Lifecycle.Call.run_proper hp (hcopied hh)
    rw [hrun, Act.exec_map, hx] at hafter
    obtain ⟨hpar, hph, name, hst⟩ := hpush hh t s' hx
    exact ⟨hafter, (hh.leads hedits.leads).push hafter.sound (hfound hx) hpar hst hph⟩

/-- An idle connection begins a root. -/
theorem ensureActive_staysHeld (config : Config) :
    Act.Keeps (StaysHeld config.maxAncestorDepth.toNat) (ensureActive config) := by
  intro p
  rw [ensureActive, Act.exec_bind_ok (Act.exec_get p)]
  cases hph : p.1.phase with
  | closed | active => exact .refl _ p
  | idle =>
    refine begin_staysHeld (.beginRoot config.defaultIsolation) rfl rfl
      Lifecycle.beginRoot_found (fun _ => List.forall_mem_nil _) fun hh t s' _ => ?_
    refine ⟨fun d hd => ?_, rfl, p.1.name, rfl⟩
    rw [hh.idle (by simp [hph])] at hd
    cases hd

/-- An idle connection begins a child of `outer`. -/
theorem activateNested_staysHeld {outer : Txn} (additive : Bool) (table : Option Table)
    (houter : p.2.ledger.Copied outer) : StaysHeld config.maxAncestorDepth.toNat p
      ((activateNested config outer additive table).exec p).2 := by
  rw [activateNested, Act.exec_bind_ok (Act.exec_get p)]
  cases hph : p.1.phase with
  | closed | active => exact .refl _ p
  | idle =>
    refine begin_staysHeld (.beginChild outer (some outer.isolation) additive table) rfl rfl
      Lifecycle.beginChild_found (fun _ => List.forall_mem_singleton.2 houter) fun hh t s' _ => ?_
    refine ⟨fun d hd => ?_, rfl, p.1.name, rfl⟩
    rw [hh.idle (by simp [hph])] at hd
    cases hd

/-- A child of the top entry begins. -/
theorem pushChild_staysHeld (config : Config) (name : String) :
    Act.Keeps (StaysHeld config.maxAncestorDepth.toNat) (pushChild config name) := by
  intro p
  rw [pushChild]
  cases hst : p.1.stack with
  | nil =>
    rw [Act.exec_bind_error (exec_leaf_nil hst)]
    exact .refl _ p
  | cons e rest =>
    rw [Act.exec_bind_ok (exec_leaf_cons hst)]
    have he : e ∈ p.1.stack := by simp [hst]
    refine begin_staysHeld (.beginChild e.txn none false none) rfl rfl
      Lifecycle.beginChild_found (fun hh => List.forall_mem_singleton.2 (hh.copied e he))
      fun hh t s' hx => ⟨fun d hd => ?_, ?_, name, rfl⟩
    · obtain rfl : e = d := by simpa [hst] using hd
      exact Lifecycle.beginChild_parent hx
    · by_contra hn
      rw [hh.idle hn] at he
      cases he

/-- The top entry is ended and leaves the stack. -/
theorem dropTop_staysHeld {finish : Txn → Act Services TxnError Unit} (hfin : Drops finish) :
    Act.Keeps (StaysHeld max) (dropTop finish) := by
  intro p
  rw [dropTop]
  cases hst : p.1.stack with
  | nil =>
    rw [Act.exec_bind_error (exec_leaf_nil hst)]
    exact .refl _ p
  | cons e rest =>
    have hpop : (pop p.1).stack <:+ p.1.stack := List.tail_suffix _
    rw [Act.exec_bind_ok (exec_leaf_cons hst), Act.exec_bind, Act.exec_onSnd]
    rcases hfin e.txn p.2 with
      ⟨err, s', hx, hr⟩ | ⟨s', hx, hr, _⟩ | ⟨o, u, s', hu, ha, hx, _, hr⟩ <;> rw [hx]
    · exact staysHeld_of_records List.suffix_rfl .inl hr
    · exact staysHeld_of_records hpop .inl hr
    · exact staysHeld_of_finish hpop .inl hu ha hr

/-! ## Elevation -/

/-- What becomes of a stack of copies: the entries are copies with the same origins. -/
structure Recopied (max : Nat) (st st' : List Savepoint) (l : Ledger) : Prop where
  proper : l.Proper max
  copied : ∀ e ∈ st', l.Copied e.txn
  origin : st'.map (·.txn.origin) = st.map (·.txn.origin)

/-- The entry below the next one to be elevated is a copy, too. -/
def AnswersCopy (l : Ledger) (answer : Except TxnError (Option Txn)) : Prop :=
  ∀ t, answer = .ok (some t) → l.Copied t

theorem answersCopy_error (l : Ledger) (e : TxnError) : AnswersCopy l (.error e) := by
  intro t h
  cases h

theorem answersCopy_none (l : Ledger) : AnswersCopy l (.ok none) := by
  intro t h
  cases h

/-- One more entry. -/
theorem Recopied.cons {rest rest' : List Savepoint} {e : Savepoint} (h : Recopied max rest rest' l)
    (hl : l.Leads l') (hp : l'.Proper max) (ht : l'.Copied t) (ho : t.origin = e.txn.origin) :
    Recopied max (e :: rest) ({ e with txn := t } :: rest') l' where
  proper := hp
  copied := List.forall_mem_cons.2 ⟨ht, fun d hd => (h.copied d hd).leads hl⟩
  origin := by rw [List.map_cons, List.map_cons, h.origin, ho]

/-- The entries of a stack are elevated, bottom first, until one fails. -/
theorem elevateStack_copied (config : Config) (table : Table) (st : List Savepoint) (s : Services) :
    ∃ st' answer s', (elevateStack config table st).exec s = (.ok (st', answer), s') ∧
      s.Edits s' ∧
      (s.ledger.Proper config.maxAncestorDepth.toNat → (∀ e ∈ st, s.ledger.Copied e.txn) →
        Recopied config.maxAncestorDepth.toNat st st' s'.ledger ∧
          AnswersCopy s'.ledger answer) := by
  induction st with
  | nil => exact ⟨[], .ok none, s, rfl, .refl s, fun hp hc => ⟨⟨hp, hc, rfl⟩, answersCopy_none _⟩⟩
  | cons e rest ih =>
    obtain ⟨rest', below, s₁, hx, hedits, hrest⟩ := ih
    rw [elevateStack, Act.exec_bind_ok hx]
    cases below with
    | error err =>
      refine ⟨e :: rest', .error err, s₁, rfl, hedits, fun hp hc => ?_⟩
      obtain ⟨he, hc⟩ := List.forall_mem_cons.1 hc
      have hr := (hrest hp hc).1
      exact ⟨hr.cons (.refl _) hr.proper (he.leads hedits.leads) rfl, answersCopy_error _ _⟩
    | ok parent =>
      rcases hy : (Lifecycle.elevateUnder config e.txn table parent).exec s₁ with ⟨x, s₂⟩
      have hlast := Lifecycle.elevateUnder_edits config e.txn table parent s₁
      rw [hy] at hlast
      have hcopied : s.ledger.Proper config.maxAncestorDepth.toNat →
          (∀ d ∈ e :: rest, s.ledger.Copied d.txn) →
          Recopied config.maxAncestorDepth.toNat rest rest' s₁.ledger ∧
            s₁.ledger.Copied e.txn ∧ s₂.ledger.Proper config.maxAncestorDepth.toNat ∧
            ∀ t, x = .ok t → s₂.ledger.Copied t ∧ t.origin = e.txn.origin := by
        intro hp hc
        obtain ⟨he, hc⟩ := List.forall_mem_cons.1 hc
        obtain ⟨hr, hbelow⟩ := hrest hp hc
        have he₁ := he.leads hedits.leads
        refine ⟨hr, he₁, Lifecycle.elevateUnder_copied hr.proper he₁ (fun p hpar => ?_) hy⟩
        cases hpar
        exact hbelow p rfl
      cases x with
      | error err =>
        refine ⟨e :: rest', .error err, s₂, by simp [Act.exec_bind, hy], hedits.trans _ _ _ hlast,
          fun hp hc => ?_⟩
        obtain ⟨hr, he, hp₂, -⟩ := hcopied hp hc
        exact ⟨hr.cons hlast.leads hp₂ (he.leads hlast.leads) rfl, answersCopy_error _ _⟩
      | ok t =>
        refine ⟨{ e with txn := t } :: rest', .ok (some t), s₂, by simp [Act.exec_bind, hy],
          hedits.trans _ _ _ hlast, fun hp hc => ?_⟩
        obtain ⟨hr, -, hp₂, ht⟩ := hcopied hp hc
        obtain ⟨ht, ho⟩ := ht t rfl
        refine ⟨hr.cons hlast.leads hp₂ ht ho, ?_⟩
        rintro t' heq
        cases heq
        exact ht

theorem elevateEntries_staysHeld (config : Config) (table : Table) :
    Act.Keeps (StaysHeld config.maxAncestorDepth.toNat) (elevateEntries config table) := by
  intro p
  obtain ⟨st', answer, s', hx, hedits, hcopied⟩ := elevateStack_copied config table p.1.stack p.2
  have hexec : ((elevateEntries config table).exec p).2 = ({ p.1 with stack := st' }, s') := by
    simp only [elevateEntries, Act.exec_bind, Act.exec_get, Act.exec_onSnd, hx, exec_alter]
    cases answer <;> rfl
  rw [hexec]
  refine ⟨hedits, fun hp hh => ?_⟩
  obtain ⟨hr, -⟩ := hcopied hp hh.copied
  refine ⟨hr.proper, hr.copied, .of_origin hh.linked hr.origin, fun hn => ?_⟩
  have hnil := hr.origin
  rw [hh.idle hn] at hnil
  exact List.map_eq_nil_iff.1 hnil

/-! ## Calls -/

/-- The steps of a held connection keep it held. -/
theorem staysHeld_stepwise (config : Config) :
    Stepwise config (StaysHeld config.maxAncestorDepth.toNat) where
  refl := .refl _
  trans := .trans _
  report p e := staysHeld_of_records List.suffix_rfl .inl (reported_looks p.2 e).toRecords
  suppress p on := by
    have hst : (p.1.suppress on).stack <:+ p.1.stack := List.suffix_rfl
    exact staysHeld_of_records hst .inl (.refl p.2)
  settle p := by
    refine staysHeld_of_records (by rw [settle_stack]) (fun h => ?_) (.refl p.2)
    rw [settle] at h
    split at h
    · next he => exact .inr (by simpa using he.1)
    · exact .inl h
  rest p phase hp := staysHeld_of_records List.suffix_rfl (fun _ => hp) (.refl p.2)
  ensureActive := ensureActive_staysHeld config
  pushChild := pushChild_staysHeld config
  elevateEntries := elevateEntries_staysHeld config
  rollbackTop := dropTop_staysHeld rollback_drops
  commitTop := dropTop_staysHeld (commit_drops config)

theorem commit_staysHeld (config : Config) : Act.Keeps (StaysHeld max) (commit config) := by
  intro p
  rcases commit_cases config p with
    ⟨e, s', hx, hs⟩ | ⟨c', s', hx, hidle, hst, hs⟩ | ⟨e, u, ts, globalTs, p', hx, hc⟩ <;> rw [hx]
  · exact staysHeld_of_records List.suffix_rfl .inl hs
  · refine staysHeld_of_records (by rw [hst]) (fun _ => ?_) hs
    rwa [hst]
  · have hnil : p'.1.stack = [] := by rw [hc.connection]
    refine staysHeld_of_finish ?_ (fun _ => .inr hnil) hc.found hc.active hc.records
    rw [hnil]
    exact List.nil_suffix

/-- Whatever a connection is called to do, it stays held. It may be started under a copy. -/
theorem Call.run_staysHeld {call : Call} (hc : ∀ t ∈ call.outer?, p.2.ledger.Copied t) :
    StaysHeld config.maxAncestorDepth.toNat p ((call.run config).exec p).2 := by
  have hs := staysHeld_stepwise config
  cases call with
  | activeTxn => exact hs.activeTxn.map _ p
  | activateNested outer additive table =>
    exact activateNested_staysHeld additive table (hc outer rfl)
  | setSavepoint name => exact (hs.setSavepoint name).map _ p
  | releaseSavepoint name => exact (hs.releaseSavepoint name).map _ p
  | rollbackTo name => exact (hs.rollbackTo name).map _ p
  | commit => exact (commit_staysHeld config).map _ p
  | abort => exact hs.abort p
  | close => exact hs.close p
  | elevate table => exact (hs.elevate table).map _ p
  | suppress on => exact hs.suppress p on

/-! ## Runs -/

namespace Pool

/-- One step of a run in which callers of the lifecycle keep nothing back. -/
inductive FreeStep (config : Config) (w : Pool) : Pool → Prop
  /-- A record is copied. -/
  | copy {id : TxnId} {t : Txn} :
      w.ledger.find? id = some t → FreeStep config w (w.onWorld (w.world.copy t))
  /-- A connection is called, with a known transaction. -/
  | call (i : Nat) {c : Call} :
      (∀ t ∈ c.outer?, t ∈ w.known) → FreeStep config w (w.after config i c)
  /-- The lifecycle is called with known transactions. It may end entries of connections. -/
  | manage {c : Lifecycle.Call} : (∀ t ∈ c.subjects, t ∈ w.known) →
      FreeStep config w (w.onWorld (w.world.after config c))

/-- Any number of steps. -/
def FreeReach (config : Config) : Pool → Pool → Prop := Relation.ReflTransGen (FreeStep config)

theorem Step.free {w w' : Pool} (h : Step config w w') : FreeStep config w w' := by
  cases h with
  | copy ht => exact .copy ht
  | call i hc => exact .call i hc
  | manage hc _ => exact .manage hc

theorem Reach.free {w w' : Pool} (h : Reach config w w') : FreeReach config w w' :=
  Relation.ReflTransGen.mono (fun _ _ => Step.free) w w' h

/-- The records are in order, what was handed out are copies, and all connections are held. -/
structure Genuine (max : Nat) (w : Pool) : Prop where
  proper : w.ledger.Proper max
  known : ∀ t ∈ w.known, w.ledger.Copied t
  held : ∀ i, (w.connections i).Held w.ledger
  rests : ∀ i, (w.connections i).Rests

variable {w w' w₀ : Pool}

theorem Fresh.genuine_pool (h : w.Fresh) (max : Nat) : w.Genuine max where
  proper := proper_nil h.world.txns
  known t ht := by
    have hnil : w.known = [] := h.world.known
    rw [hnil] at ht
    cases ht
  held i := .of_nil (h.idle i).2
  rests i := rests_of_ne (by rw [(h.idle i).1]; nofun)

/-- A call of one connection. -/
theorem Genuine.put (h : w.Genuine max) {i : Nat} {p : Connection × Services}
    (hp : StaysHeld max (w.view i) p) (hr : p.1.Rests) : (w.put i p).Genuine max := by
  obtain ⟨hproper, hheld⟩ := hp.held h.proper (h.held i)
  refine ⟨hproper, fun t ht => ?_, ?_, put_all hr fun j _ => h.rests j⟩
  · rcases List.mem_append.1 ht with ht | ht
    · obtain ⟨e, he, rfl⟩ := List.mem_map.1 ht
      exact hheld.copied e he
    · exact (h.known t ht).leads hp.edits.leads
  · exact put_all (P := fun c => c.Held p.2.ledger) hheld fun j _ => (h.held j).leads hp.edits.leads

theorem FreeStep.genuine (h : FreeStep config w w')
    (hw : w.Genuine config.maxAncestorDepth.toNat) : w'.Genuine config.maxAncestorDepth.toNat := by
  cases h with
  | copy ht =>
    exact ⟨hw.proper, List.forall_mem_cons.2 ⟨.of_find? ht, hw.known⟩, hw.held, hw.rests⟩
  | @call i c hc =>
    have hs : StaysHeld config.maxAncestorDepth.toNat (w.view i) _ :=
      Call.run_staysHeld fun t ht => hw.known t (hc t ht)
    exact hw.put hs (c.run_rests config (w.view i) (hw.rests i))
  | @manage c hc =>
    have hcopied : ∀ t ∈ c.subjects, w.ledger.Copied t := fun t ht => hw.known t (hc t ht)
    have hleads := Edits.leads (c.run_edits config w.services)
    refine ⟨Lifecycle.Call.run_proper hw.proper hcopied, fun t ht => ?_,
      fun i => (hw.held i).leads hleads, hw.rests⟩
    rcases List.mem_append.1 ht with ht | ht
    · rcases hr : (c.run config).exec w.world.services with ⟨e | ts, s'⟩
      · rw [hr] at ht
        cases ht
      · rw [hr] at ht
        have hanswer := Lifecycle.Call.run_copied hcopied hr ht
        simpa [Pool.ledger, onWorld, Lifecycle.World.after, hr] using hanswer
    · exact (hw.known t ht).leads hleads

theorem FreeReach.genuine (h : FreeReach config w₀ w) (h₀ : w₀.Fresh) :
    w.Genuine config.maxAncestorDepth.toNat := by
  induction h with
  | refl => exact h₀.genuine_pool _
  | tail _ step ih => exact step.genuine ih

end Pool

end Connection

end NestedTxn

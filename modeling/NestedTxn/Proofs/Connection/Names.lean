import NestedTxn.Proofs.Connection.Closed
import NestedTxn.Proofs.Connection.Undoing

/-!
# The names that a release or a rollback finds

* `Connection.savepointNames`: the names of the entries above the bottom one, which is no savepoint
  but has the name of the connection (`Connection.Labelled`).
* `Connection.Leads set p p'`: some of the uppermost savepoints leave, and then those called `set`
  come. `Call.run_leads`: so it is with every call, whether or not it succeeds.
* `Connection.Logbook`: a connection, with the names that its calls of savepoints left on the stack.
  `Logbook.run`: any calls, with whatever happens to the services in between.
* `Connection.unset_refused`: in every run a name that no call left is refused, unless it is that of
  the connection, which stands for the bottom entry.
-/

namespace NestedTxn

namespace Connection

open Services

/-- The names of the savepoints, top first. The bottom entry is no savepoint. -/
def savepointNames (c : Connection) : List String := (c.stack.map (·.name)).dropLast

/-- A connection has entries only while it is active, and the bottom one has its name. -/
structure Labelled (c : Connection) : Prop where
  vacant : c.Vacant
  bottom : ∀ e ∈ c.stack.getLast?, e.name = c.name

/-- From `c` to `c'` uppermost savepoints left, and then the ones called `set` came. -/
structure Led (set : List String) (c c' : Connection) : Prop where
  labelled : c'.Labelled
  name : c'.name = c.name
  names : ∃ kept, kept <:+ c.savepointNames ∧ c'.savepointNames = set ++ kept

/-- A labelled connection is led so. -/
def Leads (set : List String) (p p' : Connection × Services) : Prop :=
  p.1.Labelled → Led set p.1 p'.1

variable {config : Config} {p p' q : Connection × Services} {c c' : Connection} {name : String}
  {set : List String} {finish : Txn → Act Services TxnError Unit}

/-! ## Names on a stack -/

theorem savepointNames_length (c : Connection) : c.savepointNames.length = c.depth - 1 := by
  rw [savepointNames, List.length_dropLast, List.length_map, depth]

theorem savepointNames_push {t : Txn} (h : c.stack ≠ []) :
    (c.push name t).savepointNames = name :: c.savepointNames := by
  rw [savepointNames, push, List.map_cons, List.dropLast_cons_of_ne_nil (by simpa using h)]
  rfl

/-- A name that is on no savepoint is at most on the bottom entry. -/
theorem Labelled.below?_eq (h : c.Labelled) (hn : name ∉ c.savepointNames) :
    below? name c.stack = if name = c.name ∧ c.stack ≠ [] then some 0 else none := by
  by_cases hne : c.stack = []
  · rw [hne, if_neg (by simp)]
    rfl
  · have hbottom : (c.stack.getLast hne).name = c.name :=
      h.bottom _ (List.getLast?_eq_some_getLast hne)
    have hothers : ∀ d ∈ c.stack.dropLast, d.name ≠ name := by
      rintro d hd rfl
      refine hn ?_
      rw [savepointNames, ← List.map_dropLast]
      exact List.mem_map_of_mem hd
    have hlast : below? name c.stack = below? name [c.stack.getLast hne] := by
      conv_lhs => rw [← List.dropLast_append_getLast hne]
      exact below?_append hothers
    rw [hlast, below?, hbottom, List.length_nil]
    by_cases hown : c.name = name
    · rw [if_pos hown, if_pos ⟨hown.symm, hne⟩]
    · rw [if_neg hown, if_neg fun h => hown h.1.symm]
      rfl

theorem Labelled.led (h : c.Labelled) : Led [] c c := ⟨h, rfl, _, List.suffix_rfl, rfl⟩

/-- Entries left the stack. -/
theorem Labelled.led_of_suffix (h : c.Labelled) (hname : c'.name = c.name) (hv : c'.Vacant)
    (hst : c'.stack <:+ c.stack) : Led [] c c' := by
  obtain ⟨pre, hpre⟩ := hst
  by_cases hnil : c'.stack = []
  · refine ⟨⟨hv, by simp [hnil]⟩, hname, [], List.nil_suffix, ?_⟩
    rw [savepointNames, hnil]
    rfl
  · refine ⟨⟨hv, fun e he => ?_⟩, hname, c'.savepointNames, ?_, rfl⟩
    · rw [hname]
      refine h.bottom e ?_
      rw [← hpre, List.getLast?_append_of_ne_nil _ hnil]
      exact he
    · rw [savepointNames, savepointNames, ← hpre, List.map_append,
        List.dropLast_append_of_ne_nil (by simpa using hnil)]
      exact List.suffix_append ..

theorem Led.trans {c'' : Connection} (h : Led [] c c') (h' : Led set c' c'') : Led set c c'' := by
  obtain ⟨kept, hkept, hnames⟩ := h.names
  obtain ⟨kept', hkept', hnames'⟩ := h'.names
  rw [List.nil_append] at hnames
  rw [hnames] at hkept'
  exact ⟨h'.labelled, h'.name.trans h.name, kept', hkept'.trans hkept, hnames'⟩

theorem Leads.refl (p : Connection × Services) : Leads [] p p := Labelled.led

theorem Leads.trans (h : Leads [] p p') (h' : Leads set p' q) : Leads set p q := fun hl =>
  (h hl).trans (h' (h hl).labelled)

theorem leads_of_eq (h : p'.1 = p.1) : Leads [] p p' := fun hl => h ▸ hl.led

/-- The stack stays. -/
theorem leads_of_stack (hname : p'.1.name = p.1.name) (hst : p'.1.stack = p.1.stack)
    (hv : p.1.Vacant → p'.1.Vacant) : Leads [] p p' := fun hl =>
  hl.led_of_suffix hname (hv hl.vacant) (hst ▸ List.suffix_rfl)

/-- No entry is left. -/
theorem leads_of_nil (hname : p'.1.name = p.1.name) (hst : p'.1.stack = []) : Leads [] p p' :=
  fun hl => hl.led_of_suffix hname (fun _ => hst) (hst ▸ List.nil_suffix)

/-! ## Steps of calls -/

theorem dropTop_leads : Act.Keeps (Leads []) (dropTop finish) := by
  intro p
  rcases hx : (dropTop finish).exec p with ⟨err | x, q⟩
  · exact leads_of_eq (dropTop_error hx)
  · intro hl
    have hcalm : Calm p ((dropTop finish).exec p).2 := dropTop_calm p
    obtain ⟨e, rest, hst, hq⟩ := dropTop_ok hx
    rw [hx] at hcalm
    refine hl.led_of_suffix (by rw [hq]) (hcalm.vacant hl.vacant) ?_
    rw [hq, hst]
    exact List.suffix_cons ..

theorem unwinding_leads (config : Config) : Unwinding config (Leads []) where
  refl := .refl
  trans _ _ _ := .trans
  report _ _ := leads_of_eq rfl
  settle p := leads_of_stack (settle_name p.1) (settle_stack p.1) (settle_calm p).vacant
  rest _ _ hp := leads_of_stack rfl rfl fun hv _ => hp.elim hv id
  rollbackTop := dropTop_leads
  commitTop := dropTop_leads

theorem unwindTo_leads (name : String) : Act.Keeps (Leads []) (unwindTo name finish) :=
  (unwinding_leads {}).unwindTo dropTop_leads name

/-- The first entry is the bottom one. -/
theorem begin_leads {t : Txn} {s : Services} (h : p.1.phase ≠ .active) :
    Leads [] p ({ p.1.push p.1.name t with phase := .active }, s) := by
  intro hl
  have hst : p.1.stack = [] := hl.vacant h
  refine ⟨⟨fun hph => absurd rfl hph, ?_⟩, rfl, [], List.nil_suffix, ?_⟩
  · simp [push, hst]
  · simp [savepointNames, push, hst]

theorem ensureActive_leads (config : Config) : Act.Keeps (Leads []) (ensureActive config) := by
  intro p
  rcases ensureActive_cases config p with
    ⟨err, s', hx, _⟩ | ⟨_, hx⟩ | ⟨ts, s', hp, _, _, hx, _⟩ <;> rw [hx]
  · exact leads_of_eq rfl
  · exact .refl p
  · exact begin_leads (by simp [hp])

theorem activateNested_leads (config : Config) (outer : Txn) (additive : Bool)
    (table : Option Table) : Act.Keeps (Leads []) (activateNested config outer additive table) := by
  intro p
  rw [activateNested, Act.exec_bind_ok (Act.exec_get p)]
  cases hp : p.1.phase with
  | closed | active => exact .refl p
  | idle =>
    rw [Act.exec_bind, Act.exec_onSnd]
    rcases (Lifecycle.beginChild config outer (some outer.isolation) additive table).exec p.2 with
      ⟨e | t, s⟩
    · exact leads_of_eq rfl
    · exact begin_leads (by simp [hp])

theorem elevateEntries_leads (config : Config) (table : Table) :
    Act.Keeps (Leads []) (elevateEntries config table) := by
  intro p hl
  have hvacant := (elevateEntries_steady config table p).vacant hl.vacant
  obtain ⟨st', res, s', hx, _, hk⟩ := elevateStack_kept config table p.1.stack p.2
  have hnames := names_of_kept hk
  have hsame : ({ p.1 with stack := st' } : Connection).Vacant →
      Led [] p.1 { p.1 with stack := st' } := by
    refine fun hv => ⟨⟨hv, fun e he => ?_⟩, rfl, p.1.savepointNames, List.suffix_rfl, ?_⟩
    · -- the last name is the same
      have hlast := congrArg List.getLast? hnames
      rw [List.getLast?_map, List.getLast?_map, he, Option.map_some] at hlast
      obtain ⟨d, hd, heq⟩ := Option.map_eq_some_iff.1 hlast.symm
      exact heq.symm.trans (hl.bottom d hd)
    · rw [savepointNames, hnames]
      rfl
  rw [elevateEntries] at hvacant ⊢
  simp only [Act.exec_bind, Act.exec_get, Act.exec_onSnd, hx, alter, Act.exec_modify] at hvacant ⊢
  cases res <;> exact hsame hvacant

theorem heed_leads (name : String) (on : Bool) : Act.Keeps (Leads []) (heed name on) := by
  intro p
  rw [heed]
  split
  · exact leads_of_stack rfl rfl fun hv => hv
  · exact .refl p

/-- A child of the leaf that is pushed is a savepoint. -/
theorem pushChild_leads {x : Except TxnError Unit}
    (h : (pushChild config name).exec p = (x, q)) :
    Leads (if x.isOk then [name] else []) p q := by
  rcases pushChild_cases config name p with
    ⟨err, s', hx, _⟩ | ⟨e, rest, ts, d, s', hst, _, _, _, _, hx, _⟩ <;> rw [hx] at h <;> cases h
  · exact leads_of_eq rfl
  · intro hl
    have hne : p.1.stack ≠ [] := by simp [hst]
    refine ⟨⟨fun hph => absurd (hl.vacant hph) hne, fun d' he => ?_⟩, rfl, _, List.suffix_rfl,
      savepointNames_push hne⟩
    rw [push, hst, List.getLast?_cons_cons] at he
    exact hl.bottom _ (hst ▸ he)

/-! ## Calls -/

theorem activeTxn_leads (config : Config) : Act.Keeps (Leads []) (activeTxn config) :=
  .bind (fun _ _ _ => .trans) (ensureActive_leads config) fun _ => (unwinding_leads config).leaf

theorem elevate_leads (config : Config) (table : Table) :
    Act.Keeps (Leads []) (elevate config table) := by
  have hu := unwinding_leads config
  rw [elevate_eq]
  exact .bind hu.trans (hu.trace _ _ _) fun _ => .bind hu.trans (ensureActive_leads config) fun _ =>
    .bind hu.trans (elevateEntries_leads config table) fun _ =>
    .bind hu.trans (hu.trace _ _ _) fun _ => hu.leaf

theorem commit_leads (config : Config) : Act.Keeps (Leads []) (commit config) := by
  have hu := unwinding_leads config
  rw [commit_eq]
  refine .bind hu.trans (hu.trace _ _ _) fun _ p => ?_
  rw [Act.exec_bind_ok (Act.exec_get p)]
  cases p.1.phase with
  | idle => exact leads_of_eq rfl
  | closed => exact .refl p
  | active =>
    dsimp only
    cases hb : p.1.bottom? with
    | none =>
      have hst : p.1.stack = [] := by simpa [bottom?] using hb
      exact leads_of_nil rfl hst
    | some bottom =>
      rcases dropAll_cases config hb with ⟨e, s', hx, _⟩ | ⟨e, u, ts, g, q, hx, hc⟩
      · rw [Act.exec_bind_error hx]
        exact leads_of_eq rfl
      · rw [Act.exec_bind_ok hx]
        have hq : q.1 = { p.1 with stack := [], phase := .idle } := hc.connection
        have hcleared : Leads [] p q := leads_of_nil (by rw [hq]) (by rw [hq])
        exact hcleared.trans (leads_of_eq rfl)

/-- A savepoint that is set comes onto the stack. -/
theorem setSavepoint_leads (hsup : p.1.suppressed = false) {x : Except TxnError Nat}
    (h : (setSavepoint config name).exec p = (x, q)) :
    Leads (if x.isOk then [name] else []) p q := by
  have hu := unwinding_leads config
  -- what goes before the push sets no savepoint
  let before : Act (Connection × Services) TxnError Unit := do
    heed name true
    trace false .setSavepoint name
    ensureActive config
  have hbefore : Act.Keeps (Leads []) before :=
    .bind hu.trans (heed_leads name true) fun _ => .bind hu.trans (hu.trace _ _ _) fun _ =>
      ensureActive_leads config
  have hassoc : setSavepoint config name = (do
      let p ← get
      if p.1.suppressed then return 1
      else
        before
        pushChild config name
        trace true .setSavepoint name
        return (← get).1.depth) := by
    simp only [setSavepoint_eq, before, bind_assoc]
  rw [hassoc, Act.exec_bind_ok (Act.exec_get p), if_neg (by simp [hsup])] at h
  have hled := hbefore p
  rcases hb : before.exec p with ⟨e | u, r⟩ <;> rw [hb] at hled
  · rw [Act.exec_bind_error hb] at h
    cases h
    exact hled
  · rw [Act.exec_bind_ok hb] at h
    rcases hp : (pushChild config name).exec r with ⟨e | u, r'⟩
    · rw [Act.exec_bind_error hp] at h
      cases h
      exact hled.trans (pushChild_leads hp)
    · rw [Act.exec_bind_ok hp] at h
      cases h
      exact hled.trans (pushChild_leads hp)

theorem releaseSavepoint_leads (config : Config) (name : String) :
    Act.Keeps (Leads []) (releaseSavepoint config name) := by
  have hu := unwinding_leads config
  rw [releaseSavepoint_eq]
  refine .bind hu.trans (heed_leads name false) fun _ => .bind hu.trans hu.refl fun p => ?_
  split
  · exact hu.refl
  · exact .bind hu.trans (hu.trace _ _ _) fun _ => .bind hu.trans (unwindTo_leads name) fun _ =>
      .bind hu.trans (hu.trace _ _ _) fun _ => .bind hu.trans hu.refl fun _ => hu.refl

/-- A savepoint that is rolled back is set again. -/
theorem rollbackTo_leads (hsup : p.1.suppressed = false) {x : Except TxnError Nat}
    (h : (rollbackTo config name).exec p = (x, q)) :
    Leads (if x.isOk then [name] else []) p q := by
  let p₁ : Connection × Services :=
    (p.1, p.2.reported (.connection p.1 false .rollbackToSavepoint name))
  intro hl
  rw [rollbackTo_open hsup] at h
  have hled : Leads [] p₁ ((unwindTo name Lifecycle.rollback).exec p₁).2 := unwindTo_leads name p₁
  have hcalm : Calm p₁ ((unwindTo name Lifecycle.rollback).exec p₁).2 := unwindTo_calm name p₁
  rcases hu : (unwindTo name Lifecycle.rollback).exec p₁ with ⟨e | u, r⟩ <;> rw [hu] at hled hcalm
  · rw [Act.exec_bind_error hu] at h
    cases h
    exact hled hl
  · rw [Act.exec_bind_ok hu] at h
    have hr : r.1.suppressed = false := (hcalm.suppressed hl.vacant).trans hsup
    rcases hs : (setSavepoint config name).exec r with ⟨e | n, r'⟩
    · rw [Act.exec_bind_error hs] at h
      cases h
      exact hled.trans (setSavepoint_leads hr hs) hl
    · have hset : Leads [name] r r' := setSavepoint_leads hr hs
      rw [Act.exec_bind_ok hs] at h
      cases h
      exact hled.trans hset hl

/-- The names of the savepoints that a call sets, if it comes to `x`. -/
def Call.sets (suppressed : Bool) (x : Except TxnError Unit) : Call → List String
  | setSavepoint name | rollbackTo name => if x.isOk && !suppressed then [name] else []
  | activeTxn | activateNested .. | releaseSavepoint _ | commit | abort | close | elevate _
  | .suppress _ => []

/-- What a call does to the names, whether or not it succeeds. -/
theorem Call.run_leads (config : Config) (call : Call) (p : Connection × Services) :
    Leads (call.sets p.1.suppressed ((call.run config).exec p).1) p
      ((call.run config).exec p).2 := by
  cases call with
  | activeTxn => exact (activeTxn_leads config).map _ p
  | activateNested outer additive table => exact activateNested_leads config outer additive table p
  | releaseSavepoint name => exact (releaseSavepoint_leads config name).map _ p
  | commit => exact (commit_leads config).map _ p
  | abort => exact (unwinding_leads config).abort p
  | close => exact (unwinding_leads config).close p
  | elevate table => exact (elevate_leads config table).map _ p
  | suppress on => exact leads_of_stack rfl rfl fun hv => hv
  | setSavepoint name =>
    rw [run, Act.exec_discard]
    cases hsup : p.1.suppressed with
    | true =>
      rw [setSavepoint_suppressed hsup]
      exact .refl p
    | false =>
      rcases hx : (Connection.setSavepoint config name).exec p with ⟨e | n, q⟩ <;>
        exact setSavepoint_leads hsup hx
  | rollbackTo name =>
    rw [run, Act.exec_discard]
    cases hsup : p.1.suppressed with
    | true =>
      rw [rollbackTo_suppressed hsup]
      exact .refl p
    | false =>
      rcases hx : (Connection.rollbackTo config name).exec p with ⟨e | n, q⟩ <;>
        exact rollbackTo_leads hsup hx

/-! ## Runs -/

/-- A connection with the services, and the names that its calls left on the stack. -/
structure Logbook where
  /-- The connection and the services. -/
  view : Connection × Services
  /-- The names of the savepoints that were set and are left, the last one first. -/
  left : List String := []

namespace Logbook

/-- The names after a call: as many earlier ones as there are entries for, below what it sets. -/
def entered (w : Logbook) (c : Call) (r : Except TxnError Unit × Connection × Services) :
    List String :=
  let set := c.sets w.view.1.suppressed r.1
  set ++ w.left.rtake (r.2.1.depth - 1 - set.length)

/-- What comes after a moment. -/
def after (config : Config) (w : Logbook) : Moment → Logbook
  | .call c =>
    let r := (c.run config).exec w.view
    { view := r.2, left := w.entered c r }
  | .meanwhile s => { w with view := (w.view.1, s) }

/-- What comes after some moments. -/
def run (config : Config) (w : Logbook) : List Moment → Logbook
  | [] => w
  | m :: ms => (w.after config m).run config ms

/-- A new connection. -/
def start (config : Config) (name : String) (s : Services) : Logbook where
  view := (.ofName config name, s)

/-- The connection has the name `own`, and the list has the names of its savepoints. -/
structure Faithful (own : String) (w : Logbook) : Prop where
  labelled : w.view.1.Labelled
  name : w.view.1.name = own
  left : w.left = w.view.1.savepointNames
  rests : w.view.1.Rests

variable {w : Logbook} {own : String}

theorem Faithful.after (h : w.Faithful own) (m : Moment) : (w.after config m).Faithful own := by
  cases m with
  | meanwhile s => exact ⟨h.labelled, h.name, h.left, h.rests⟩
  | call c =>
    have hled := c.run_leads config w.view h.labelled
    obtain ⟨kept, hkept, hnames⟩ := hled.names
    refine ⟨hled.labelled, hled.name.trans h.name, ?_, c.run_rests config w.view h.rests⟩
    have hlen := congrArg List.length hnames
    rw [savepointNames_length, List.length_append] at hlen
    have hkeep : w.left.rtake kept.length = kept := by
      rw [h.left, List.rtake]
      exact (List.suffix_iff_eq_drop.1 hkept).symm
    rw [Logbook.after, entered, hnames]
    dsimp only
    rw [hlen, Nat.add_sub_cancel_left, hkeep]

theorem Faithful.run (h : w.Faithful own) (ms : List Moment) : (w.run config ms).Faithful own := by
  induction ms generalizing w with
  | nil => exact h
  | cons m ms ih => exact ih (h.after m)

theorem start_faithful (config : Config) (own : String) (s : Services) :
    (start config own s).Faithful own where
  labelled := ⟨fun _ => rfl, by simp [start, ofName]⟩
  name := rfl
  left := rfl
  rests := rests_of_ne (by simp [start, ofName])

end Logbook

/-! ## Names that are not found -/

/-- The answer to a name that is not on the stack. -/
def refusal (c : Connection) (name : String) : TxnError :=
  if c.phase = .closed then .closed else .savepointNotFound name

theorem exec_find_refused (h : below? name p.1.stack = none) :
    (find name).exec p = (.error (p.1.refusal name), p) := by
  rw [find, Act.exec_bind_ok (Act.exec_get p), refusal]
  dsimp only
  split
  · rfl
  · rw [h]
    rfl

theorem releaseSavepoint_refused (hsup : p.1.suppressed = false)
    (h : below? name p.1.stack = none) :
    LogsOnly (releaseSavepoint config name) p (.error (p.1.refusal name)) p.1 := by
  have hheed : p.1.heeded name false = p.1 := by
    rw [heeded, suppress, ← hsup, ite_self]
  rw [releaseSavepoint_eq]
  refine .heed ?_
  rw [hheed]
  refine .get ?_
  rw [if_neg (by simp [hsup])]
  exact .trace fun s => .error (Act.exec_bind_error (exec_find_refused (p := (p.1, s)) h))

theorem rollbackTo_refused (hsup : p.1.suppressed = false) (h : below? name p.1.stack = none) :
    LogsOnly (rollbackTo config name) p (.error (p.1.refusal name)) p.1 := by
  refine .get ?_
  rw [if_neg (by simp [hsup])]
  exact .trace fun s => .error (Act.exec_bind_error (exec_find_refused (p := (p.1, s)) h))

/-- In every run of a connection of any name, whatever does not answer: while savepoints are not
suppressed, a release and a rollback to a name that no call left on the stack fail, and leave
everything as it was, but for the log. The name of the connection itself is an exception while it is
active: it stands for the bottom entry. -/
theorem unset_refused {config : Config} (own : String) (s : Services) (ms : List Moment)
    {name : String} (hsup : ((Logbook.start config own s).run config ms).view.1.suppressed = false)
    (hname : name ∉ ((Logbook.start config own s).run config ms).left) :
    let p := ((Logbook.start config own s).run config ms).view
    (¬ (name = own ∧ p.1.phase = .active) →
      (∃ log, (releaseSavepoint config name).exec p =
        (.error (if p.1.phase = .closed then .closed else .savepointNotFound name), p.1,
          { p.2 with log })) ∧
      ∃ log, (rollbackTo config name).exec p =
        (.error (if p.1.phase = .closed then .closed else .savepointNotFound name), p.1,
          { p.2 with log })) ∧
    (name = own ∧ p.1.phase = .active → below? name p.1.stack = some 0) := by
  intro p
  have hw : ((Logbook.start config own s).run config ms).Faithful own :=
    (Logbook.start_faithful config own s).run ms
  have hunset : name ∉ p.1.savepointNames := hw.left ▸ hname
  refine ⟨fun hown => ?_, fun ⟨heq, hph⟩ => ?_⟩
  · have hnone : below? name p.1.stack = none := by
      rw [hw.labelled.below?_eq hunset, if_neg]
      rintro ⟨heq, hne⟩
      refine hne (hw.labelled.vacant fun hph => hown ⟨heq.trans hw.name, hph⟩)
    exact ⟨releaseSavepoint_refused hsup hnone, rollbackTo_refused hsup hnone⟩
  · rw [hw.labelled.below?_eq hunset, if_pos ⟨heq.trans hw.name.symm, hw.rests hph⟩]

/-- A connection with a savepoint `a` that was released, and another one. -/
def releasedBook : Logbook :=
  (Logbook.start {} "c" {}).run {}
    [.call (.setSavepoint "a"), .call (.releaseSavepoint "a"), .call (.setSavepoint "b")]

/-- The general rule at this run: the name of the released savepoint is refused. -/
theorem unset_refused_released :
    let p := releasedBook.view
    (∃ log, (releaseSavepoint {} "a").exec p =
        (.error (.savepointNotFound "a"), p.1, { p.2 with log })) ∧
      ∃ log, (rollbackTo {} "a").exec p =
        (.error (.savepointNotFound "a"), p.1, { p.2 with log }) := by
  have hsup : releasedBook.view.1.suppressed = false := by decide +kernel
  have hunset : "a" ∉ releasedBook.left := by decide +kernel
  have hopen : releasedBook.view.1.phase ≠ .closed := by decide +kernel
  have hrefused := (unset_refused "c" {} _ hsup hunset).1 (by decide)
  rw [← releasedBook, if_neg hopen] at hrefused
  exact hrefused

/-- An active connection `c` without savepoints. -/
def ownNamed : Logbook := (Logbook.start {} "c" {}).run {} [.call .activeTxn]

/-- A release of its own name by an active connection without savepoints succeeds, and commits the
whole transaction. -/
theorem own_name_released :
    ownNamed.view.1.suppressed = false ∧ "c" ∉ ownNamed.left ∧
      ((releaseSavepoint {} "c").exec ownNamed.view).1 = .ok 0 ∧
      ownNamed.view.1.depth = 1 ∧
      ((releaseSavepoint {} "c").exec ownNamed.view).2.1.depth = 0 ∧
      (ownNamed.view.2.ledger.find? 1).map (·.state) = some .active ∧
      (((releaseSavepoint {} "c").exec ownNamed.view).2.2.ledger.find? 1).map (·.state) =
        some .committed :=
  ⟨rfl, List.not_mem_nil, rfl, rfl, rfl, rfl, rfl⟩

end Connection

end NestedTxn

import Lox.Proofs.Loops.Layers
import Lox.Proofs.Scoping.Renamed

/-!
# The resolver ties the distances

One resolver walks a program as it is written, another one the program with its loops
written out. Side by side they come upon the same nodes in the same order, with the same
names in the scopes they share and none in the hollow ones. So they report the same
faults, and for each node they record distances that lead to the same scope, or none.

The one thing that a hollow scope could hide is that the name of a variable is not ready.
But while a statement is walked all names are ready: it is only in the initializer of a
declaration that one is not, and there the innermost scope is a shared one.
-/

namespace Lox

namespace Binding

/-! ## Scopes side by side -/

/-- The scopes of both: in the second there are hollow ones too. -/
inductive Padded : List Layer → Scopes → Scopes → Prop
  | nil : Padded [] [] []
  | shared {layers : List Layer} {scopes scopes' : Scopes} (names : Names)
    (h : Padded layers scopes scopes') :
    Padded (.shared :: layers) (names :: scopes) (names :: scopes')
  | hollow {layers : List Layer} {scopes scopes' : Scopes} (h : Padded layers scopes scopes') :
    Padded (.hollow :: layers) scopes ([] :: scopes')

/-- All names can be read. -/
def Scopes.Ready (scopes : Scopes) : Prop :=
  ∀ names ∈ scopes, ∀ name, names.lookup name ≠ some false

section Padded

variable {layers : List Layer} {scopes scopes' : Scopes}

theorem Padded.distance? (h : Padded layers scopes scopes') (name : String) :
    Option.Rel (Layer.Reaches layers) (scopes.distance? name) (scopes'.distance? name) := by
  induction h with
  | nil => exact .none
  | @shared layers scopes scopes' names h ih =>
      rw [Scopes.distance?_cons, Scopes.distance?_cons]
      split
      · exact .some .here
      · generalize scopes.distance? name = d, scopes'.distance? name = d' at ih
        cases ih with
        | none => exact .none
        | some h => exact .some (.shared h)
  | @hollow layers scopes scopes' h ih =>
      rw [Scopes.distance?_cons, List.lookup_nil]
      generalize scopes.distance? name = d, scopes'.distance? name = d' at ih
      cases ih with
      | none => exact .none
      | some h => exact .some (.hollow h)

/-- Where something can be declared both know the same of a name. -/
theorem Padded.innermost? (h : Padded layers scopes scopes') (ho : Layer.Open layers)
    (name : String) : scopes'.innermost? name = scopes.innermost? name := by
  cases h with
  | hollow => exact absurd rfl ho
  | _ => rfl

theorem Padded.enter (h : Padded layers scopes scopes') (ho : Layer.Open layers)
    (name : String) (ready : Bool) :
    Padded layers (scopes.enter name ready) (scopes'.enter name ready) := by
  cases h with
  | nil => exact .nil
  | shared names h => exact .shared _ h
  | hollow => exact absurd rfl ho

theorem Padded.ready (h : Padded layers scopes scopes') (hr : scopes.Ready) :
    scopes'.Ready := by
  induction h with
  | nil => exact hr
  | shared names _ ih =>
      obtain ⟨hnames, hscopes⟩ := List.forall_mem_cons.mp hr
      exact List.forall_mem_cons.mpr ⟨hnames, ih hscopes⟩
  | hollow _ ih => exact List.forall_mem_cons.mpr ⟨fun _ => nofun, ih hr⟩

theorem Scopes.Ready.innermost? (hr : scopes.Ready) (name : String) :
    scopes.innermost? name ≠ some false := by
  cases scopes with
  | nil => exact nofun
  | cons names outer => exact hr names List.mem_cons_self name

/-- A name that is introduced can be read. -/
theorem Scopes.Ready.introduce (hr : scopes.Ready) (name : Token) :
    (scopes.introduce name).Ready := by
  cases scopes with
  | nil => exact hr
  | cons names outer =>
      obtain ⟨hnames, houter⟩ := List.forall_mem_cons.mp hr
      refine List.forall_mem_cons.mpr ⟨fun n => ?_, houter⟩
      rw [lookup_cons_name, lookup_cons_name]
      split
      · exact nofun
      · exact hnames n

end Padded

/-! ## Walks side by side -/

/-- Two resolvers on their way. -/
structure Beside (layers : List Layer) (s t : State) : Prop where
  padded : Padded layers s.scopes t.scopes
  /-- A read is refused by both or by neither. -/
  reads : ∀ name, t.innermost? name = some false ↔ s.innermost? name = some false
  faults : t.faults = s.faults

/-- Two resolvers between statements. -/
structure Settled (layers : List Layer) (s t : State) : Prop where
  padded : Padded layers s.scopes t.scopes
  ready : Scopes.Ready s.scopes
  faults : t.faults = s.faults

/-- What both have recorded. -/
abbrev records (s t : State) : Records := (s.distances, t.distances)

/-- Distances of these nodes only have been recorded, with which something holds, whatever
else is recorded. -/
structure Recording (ids : List NodeId) (r r' : Records) (P : Records → Prop) : Prop where
  outside : ∀ id, id ∉ ids → r'.found id = r.found id
  tied : ids.Nodup → (∀ id ∈ ids, r.found id = (none, none)) →
    ∀ known : Records, (∀ id ∈ ids, known.found id = r'.found id) → P known

section Rules

variable {layers : List Layer} {s t s' t' : State} {ids ids' : List NodeId}
  {r r' r'' : Records} {P Q : Records → Prop}

theorem Recording.refl (r : Records) : Recording [] r r fun _ => True :=
  ⟨fun _ _ => rfl, fun _ _ _ _ => trivial⟩

theorem Recording.mono (h : Recording ids r r' P) (hPQ : ∀ known, P known → Q known) :
    Recording ids r r' Q :=
  ⟨h.outside, fun hn hs known hk => hPQ known (h.tied hn hs known hk)⟩

theorem Recording.perm (h : Recording ids r r' P) (hp : ids'.Perm ids) :
    Recording ids' r r' P := by
  refine ⟨fun id hid => h.outside id (mt hp.mem_iff.2 hid), fun hn hs known hk => ?_⟩
  exact h.tied (hp.nodup_iff.1 hn) (fun id hid => hs id (hp.mem_iff.2 hid)) known
    fun id hid => hk id (hp.mem_iff.2 hid)

theorem Recording.append (h : Recording ids r r' P) (h' : Recording ids' r' r'' Q) :
    Recording (ids ++ ids') r r'' fun known => P known ∧ Q known := by
  refine ⟨fun id hid => ?_, fun hn hs known hk => ?_⟩
  · rw [List.mem_append, not_or] at hid
    rw [h'.outside id hid.2, h.outside id hid.1]
  · obtain ⟨hn₁, hn₂, hne⟩ := List.nodup_append.1 hn
    refine ⟨h.tied hn₁ (fun id hid => hs id (List.mem_append_left _ hid)) known fun id hid => ?_,
      h'.tied hn₂ (fun id hid => ?_) known fun id hid => hk id (List.mem_append_right _ hid)⟩
    · rw [← h'.outside id fun hid' => hne id hid id hid' rfl]
      exact hk id (List.mem_append_left _ hid)
    · rw [h.outside id fun hid' => hne id hid' id hid rfl]
      exact hs id (List.mem_append_right _ hid)

theorem Settled.beside (h : Settled layers s t) : Beside layers s t where
  padded := h.padded
  reads name := iff_of_false ((h.padded.ready h.ready).innermost? name) (h.ready.innermost? name)
  faults := h.faults

/-- Where something can be declared, the innermost scope is shared. -/
theorem Beside.of_open (ho : Layer.Open layers) (hp : Padded layers s.scopes t.scopes)
    (hf : t.faults = s.faults) : Beside layers s t where
  padded := hp
  reads name := by
    have hsame : t.innermost? name = s.innermost? name := hp.innermost? ho name
    rw [hsame]
  faults := hf

/-- A distance is recorded by both or by neither. -/
theorem link_both (h : Beside layers s t) (id : NodeId) (name : Token) :
    Beside layers (s.link id name) (t.link id name) ∧
      Recording [id] (records s t) (records (s.link id name) (t.link id name))
        fun known => known.Ties layers id := by
  refine ⟨⟨?_, ?_, ?_⟩, ?_⟩
  · rw [scopes_link, scopes_link]
    exact h.padded
  · intro n
    rw [State.innermost?, State.innermost?, scopes_link, scopes_link]
    exact h.reads n
  · rw [faults_link, faults_link]
    exact h.faults
  · have hdistance : Option.Rel (Layer.Reaches layers) (s.distance? name.lexeme)
      (t.distance? name.lexeme) := h.padded.distance? name.lexeme
    unfold State.link
    generalize s.distance? name.lexeme = d, t.distance? name.lexeme = d' at hdistance
    cases hdistance with
    | none =>
        refine ⟨fun _ _ => rfl, fun _ hs known hk => ?_⟩
        rw [Records.Ties, hk id List.mem_cons_self, hs id List.mem_cons_self]
        exact .none
    | some hd =>
        refine ⟨fun id' hid => ?_, fun _ _ known hk => ?_⟩
        · have hne : id' ≠ id := fun heq => hid (List.mem_singleton.2 heq)
          exact Prod.ext ((find?_record ..).trans (if_neg hne))
            ((find?_record ..).trans (if_neg hne))
        · rw [Records.Ties, hk id List.mem_cons_self, Records.found, find?_record, find?_record,
            if_pos rfl, if_pos rfl]
          exact .some hd

theorem read_both (h : Beside layers s t) (id : NodeId) (name : Token) :
    Beside layers (s.read id name) (t.read id name) ∧
      Recording [id] (records s t) (records (s.read id name) (t.read id name))
        fun known => known.Ties layers id := by
  unfold State.read
  by_cases hs : s.innermost? name.lexeme = some false
  · rw [if_pos hs, if_pos ((h.reads _).2 hs)]
    exact link_both (s := s.report .readInOwnInitializer name)
      (t := t.report .readInOwnInitializer name)
      ⟨h.padded, h.reads, congrArg (· ++ [_]) h.faults⟩ id name
  · rw [if_neg hs, if_neg (mt (h.reads _).1 hs)]
    exact link_both h id name

end Rules

/-! ## Expressions -/

mutual

theorem expression_both (e : Expr) {layers : List Layer} {s t : State} (h : Beside layers s t) :
    Beside layers (expression e s) (expression e t) ∧
      Recording e.nodeIds (records s t) (records (expression e s) (expression e t))
        fun known => e.Tied known layers := by
  match e with
  | .literal _ => exact ⟨h, .refl _⟩
  | .group inner => exact expression_both inner h
  | .unary _ operand => exact expression_both operand h
  | .binary left _ right | .logical left _ right =>
      obtain ⟨hl, hleft⟩ := expression_both left h
      obtain ⟨hr, hright⟩ := expression_both right hl
      exact ⟨hr, hleft.append hright⟩
  | .variable id name => exact read_both h id name
  | .assign id name value =>
      obtain ⟨hv, hvalue⟩ := expression_both value h
      obtain ⟨hl, hlink⟩ := link_both hv id name
      have hperm : ([id] ++ value.nodeIds).Perm (value.nodeIds ++ [id]) := List.perm_append_comm
      exact ⟨hl, (hvalue.append hlink).perm hperm⟩
  | .call callee _ arguments =>
      obtain ⟨hc, hcallee⟩ := expression_both callee h
      obtain ⟨ha, harguments⟩ := expressions_both arguments hc
      exact ⟨ha, hcallee.append harguments⟩

theorem expressions_both (es : List Expr) {layers : List Layer} {s t : State}
    (h : Beside layers s t) : Beside layers (expressions es s) (expressions es t) ∧
      Recording (Expr.nodeIdsAll es) (records s t) (records (expressions es s) (expressions es t))
        fun known => Expr.TiedAll known layers es := by
  match es with
  | [] => exact ⟨h, .refl _⟩
  | e :: rest =>
      obtain ⟨he, hfirst⟩ := expression_both e h
      obtain ⟨hr, hrest⟩ := expressions_both rest he
      exact ⟨hr, hfirst.append hrest⟩

end

theorem optionalExpression_both (o : Option Expr) {layers : List Layer} {s t : State}
    (h : Beside layers s t) :
    Beside layers (optionalExpression o s) (optionalExpression o t) ∧
      Recording (Expr.nodeIdsOptional o) (records s t)
        (records (optionalExpression o s) (optionalExpression o t))
        fun known => Expr.TiedOptional known layers o := by
  cases o with
  | none => exact ⟨h, .refl _⟩
  | some e => exact expression_both e h

/-! ## Declarations -/

section Declarations

variable {layers : List Layer} {s t : State}

theorem Settled.expression (h : Settled layers s t) (e : Expr) :
    Settled layers (expression e s) (expression e t) ∧
      Recording e.nodeIds (records s t) (records (Binding.expression e s) (Binding.expression e t))
        fun known => e.Tied known layers := by
  obtain ⟨hb, hrecording⟩ := expression_both e h.beside
  exact ⟨⟨hb.padded, (scopes_expression e s).symm ▸ h.ready, hb.faults⟩, hrecording⟩

theorem Settled.optionalExpression (h : Settled layers s t) (o : Option Expr) :
    Settled layers (optionalExpression o s) (optionalExpression o t) ∧
      Recording (Expr.nodeIdsOptional o) (records s t)
        (records (Binding.optionalExpression o s) (Binding.optionalExpression o t))
        fun known => Expr.TiedOptional known layers o := by
  cases o with
  | none => exact ⟨h, .refl _⟩
  | some e => exact h.expression e

theorem Settled.openScope (h : Settled layers s t) :
    Settled (.shared :: layers) s.openScope t.openScope where
  padded := .shared [] h.padded
  ready := List.forall_mem_cons.mpr ⟨fun _ => nofun, h.ready⟩
  faults := h.faults

/-- The block of a loop body is opened in the second walk only. -/
theorem Settled.openHollow (h : Settled layers s t) :
    Settled (.hollow :: layers) s t.openScope where
  padded := .hollow h.padded
  ready := h.ready
  faults := h.faults

theorem Settled.closeScope (h : Settled (.shared :: layers) s t) :
    Settled layers s.closeScope t.closeScope := by
  obtain ⟨hp, hr, hf⟩ := h
  obtain ⟨scopes, distances, faults⟩ := s
  obtain ⟨scopes', distances', faults'⟩ := t
  cases hp with
  | shared names hp => exact ⟨hp, (List.forall_mem_cons.mp hr).2, hf⟩

theorem Settled.closeHollow (h : Settled (.hollow :: layers) s t) :
    Settled layers s t.closeScope := by
  obtain ⟨hp, hr, hf⟩ := h
  obtain ⟨scopes, distances, faults⟩ := s
  obtain ⟨scopes', distances', faults'⟩ := t
  cases hp with
  | hollow hp => exact ⟨hp, hr, hf⟩

theorem distances_declare (s : State) (name : Token) :
    (s.declare name).distances = s.distances := by
  unfold State.declare
  split <;> exact distances_enter s name.lexeme false

variable (ho : Layer.Open layers)
include ho

/-- A name that is declared in both, and is in neither ready yet. -/
theorem Settled.declare (h : Settled layers s t) (name : Token) :
    Beside layers (s.declare name) (t.declare name) := by
  have hsame : t.innermost? name.lexeme = s.innermost? name.lexeme := h.padded.innermost? ho _
  refine .of_open ho ?_ ?_
  · rw [scopes_declare, scopes_declare]
    exact h.padded.enter ho _ _
  · unfold State.declare
    rw [hsame]
    split
    · show (t.enter _ _).faults ++ _ = (s.enter _ _).faults ++ _
      rw [faults_enter, faults_enter, h.faults]
    · rw [faults_enter, faults_enter, h.faults]

theorem Settled.introduce (h : Settled layers s t) (name : Token) :
    Settled layers (s.introduce name) (t.introduce name) ∧
      records (s.introduce name) (t.introduce name) = records s t := by
  have hd := h.declare ho name
  refine ⟨⟨?_, ?_, ?_⟩, ?_⟩
  · rw [State.introduce, State.introduce, State.define, State.define, scopes_enter, scopes_enter]
    exact hd.padded.enter ho _ _
  · rw [scopes_introduce]
    exact h.ready.introduce name
  · rw [State.introduce, State.introduce, State.define, State.define, faults_enter, faults_enter]
    exact hd.faults
  · rw [records, State.introduce, State.introduce, State.define, State.define, distances_enter,
      distances_enter, distances_declare, distances_declare]

theorem Settled.introduceAll (h : Settled layers s t) (params : List Token) :
    Settled layers (params.foldl State.introduce s) (params.foldl State.introduce t) ∧
      records (params.foldl State.introduce s) (params.foldl State.introduce t) =
        records s t := by
  induction params generalizing s t with
  | nil => exact ⟨h, rfl⟩
  | cons name params ih =>
      obtain ⟨hname, hrecords⟩ := h.introduce ho name
      obtain ⟨hparams, hrecords'⟩ := ih hname
      exact ⟨hparams, hrecords'.trans hrecords⟩

theorem Settled.var (h : Settled layers s t) (inFunction : Bool) (name : Token)
    (initializer : Option Expr) :
    Settled layers (statement inFunction (.var name initializer) s)
        (statement inFunction (.var name initializer) t) ∧
      Recording (Expr.nodeIdsOptional initializer) (records s t)
        (records (statement inFunction (.var name initializer) s)
          (statement inFunction (.var name initializer) t))
        fun known => Expr.TiedOptional known layers initializer := by
  obtain ⟨hb, hrecording⟩ := optionalExpression_both initializer (h.declare ho name)
  refine ⟨⟨?_, ?_, ?_⟩, ?_⟩
  · rw [statement, statement, State.define, State.define, scopes_enter, scopes_enter]
    exact hb.padded.enter ho _ _
  · rw [statement, State.define, scopes_enter, scopes_optionalExpression, scopes_declare]
    exact h.ready.introduce name
  · rw [statement, statement, State.define, State.define, faults_enter, faults_enter]
    exact hb.faults
  · rw [records, records, distances_declare, distances_declare] at hrecording
    rw [records, records, statement, statement, State.define, State.define, distances_enter,
      distances_enter]
    exact hrecording

end Declarations

/-! ## Statements -/

section Loops

variable {layers : List Layer} {s t : State} {inFunction : Bool} {body : Stmt}

/-- A statement as it is written is walked beside the statement with its loops written
out. -/
abbrev Walked (inFunction : Bool) (body : Stmt) : Prop :=
  ∀ {layers : List Layer} {s t : State}, Settled layers s t →
    Settled layers (statement inFunction body s) (statement inFunction body.desugar t) ∧
      Recording body.nodeIds (records s t)
        (records (statement inFunction body s) (statement inFunction body.desugar t))
        fun known => body.Tied known layers

/-- The body of a loop and the increment stand in a hollow scope if there are both. -/
theorem round_both (hbody : Walked inFunction body) (increment : Option Expr)
    (h : Settled layers s t) :
    Settled layers (optionalExpression increment (statement inFunction body s))
        (statement inFunction (body.desugar.withIncrement increment) t) ∧
      Recording (Expr.nodeIdsOptional increment ++ body.nodeIds) (records s t)
        (records (optionalExpression increment (statement inFunction body s))
          (statement inFunction (body.desugar.withIncrement increment) t))
        fun known => Expr.TiedOptional known (Layer.round increment layers) increment ∧
          body.Tied known (Layer.round increment layers) := by
  cases increment with
  | none =>
      obtain ⟨hb, hrecording⟩ := hbody h
      exact ⟨hb, hrecording.mono fun known ht => ⟨trivial, ht⟩⟩
  | some e =>
      obtain ⟨hb, hrecording⟩ := hbody h.openHollow
      obtain ⟨he, hrecording'⟩ := hb.expression e
      refine ⟨he.closeHollow,
        ((hrecording.append hrecording').perm ?_).mono fun known ht => ht.symm⟩
      exact List.perm_append_comm

/-- The loop without its initializer. -/
theorem loop_both (hbody : Walked inFunction body) (condition increment : Option Expr)
    (h : Settled layers s t) :
    Settled layers
        (optionalExpression increment
          (statement inFunction body (optionalExpression condition s)))
        (statement inFunction (.whileLoop (Stmt.loopCondition condition)
          (body.desugar.withIncrement increment)) t) ∧
      Recording (Expr.nodeIdsOptional condition ++
          (Expr.nodeIdsOptional increment ++ body.nodeIds)) (records s t)
        (records
          (optionalExpression increment
            (statement inFunction body (optionalExpression condition s)))
          (statement inFunction (.whileLoop (Stmt.loopCondition condition)
            (body.desugar.withIncrement increment)) t))
        fun known => Expr.TiedOptional known layers condition ∧
          Expr.TiedOptional known (Layer.round increment layers) increment ∧
            body.Tied known (Layer.round increment layers) := by
  obtain ⟨hc, hcondition⟩ := h.optionalExpression condition
  obtain ⟨hr, hround⟩ := round_both hbody increment hc
  have hwalk : optionalExpression condition t = expression (Stmt.loopCondition condition) t := by
    cases condition <;> rfl
  rw [hwalk] at hr hround hcondition
  exact ⟨hr, hcondition.append hround⟩

end Loops

mutual

/-- Statements stand where something can be declared, or are no declarations. -/
theorem statement_both (inFunction : Bool) (stmt : Stmt) (h : stmt.Written) {layers : List Layer}
    (ho : stmt.plain = true ∨ Layer.Open layers) {s t : State} (hs : Settled layers s t) :
    Settled layers (statement inFunction stmt s) (statement inFunction stmt.desugar t) ∧
      Recording stmt.nodeIds (records s t)
        (records (statement inFunction stmt s) (statement inFunction stmt.desugar t))
        fun known => stmt.Tied known layers := by
  match stmt with
  | .expression value | .print value => exact hs.expression value
  | .var name initializer =>
      have hopen : Layer.Open layers := ho.resolve_left nofun
      obtain ⟨hv, hrecording⟩ := hs.var hopen inFunction name initializer
      exact ⟨hv, hrecording.mono fun known ht => ⟨hopen, ht⟩⟩
  | .block body =>
      obtain ⟨hb, hrecording⟩ := statements_both inFunction body h (Layer.open_shared layers)
        hs.openScope
      exact ⟨hb.closeScope, hrecording⟩
  | .ifThen condition thenBranch elseBranch =>
      obtain ⟨hc, hcondition⟩ := hs.expression condition
      obtain ⟨ht, hthen⟩ := statement_both inFunction thenBranch h.1.2 (.inl h.1.1) hc
      obtain ⟨he, helse⟩ := optionalStatement_both inFunction elseBranch h.2.2
        (fun s hsome => .inl (h.2.1 s hsome)) ht
      exact ⟨he, ((hcondition.append hthen).append helse).mono fun known hk =>
        ⟨hk.1.1, hk.1.2, hk.2⟩⟩
  | .whileLoop condition body =>
      obtain ⟨hc, hcondition⟩ := hs.expression condition
      obtain ⟨hb, hbody⟩ := statement_both inFunction body h.2 (.inl h.1) hc
      exact ⟨hb, hcondition.append hbody⟩
  | .forLoop initializer condition increment body =>
      have hbody : Walked inFunction body := statement_both inFunction body h.2.2 (.inl h.2.1)
      match initializer with
      | none =>
          obtain ⟨hl, hloop⟩ := loop_both hbody condition increment hs
          refine ⟨hl, (hloop.perm ?_).mono fun known hk => ⟨trivial, hk⟩⟩
          rw [Stmt.nodeIds, Stmt.nodeIdsOptional, List.nil_append, List.append_assoc]
      | some initializer =>
          obtain ⟨hi, hinitializer⟩ := statement_both inFunction initializer h.1
            (.inr (Layer.open_shared layers)) hs.openScope
          obtain ⟨hl, hloop⟩ := loop_both hbody condition increment hi
          refine ⟨hl.closeScope, (hinitializer.append hloop).perm ?_⟩
          rw [Stmt.nodeIds, List.append_assoc, List.append_assoc]
          rfl
  | .function name params body =>
      have hopen : Layer.Open layers := ho.resolve_left nofun
      obtain ⟨hn, hrecords⟩ := hs.introduce hopen name
      obtain ⟨hp, hrecords'⟩ := hn.openScope.introduceAll (Layer.open_shared layers) params
      obtain ⟨hb, hbody⟩ := statements_both true body h (Layer.open_shared layers) hp
      rw [hrecords'] at hbody
      rw [← hrecords]
      exact ⟨hb.closeScope, hbody.mono fun known hk => ⟨hopen, hk⟩⟩
  | .ret keyword value =>
      cases inFunction with
      | true => exact hs.optionalExpression value
      | false =>
          have hreport : Settled layers (s.report .returnFromTopLevel keyword)
              (t.report .returnFromTopLevel keyword) :=
            ⟨hs.padded, hs.ready, congrArg (· ++ [_]) hs.faults⟩
          exact hreport.optionalExpression value

theorem statements_both (inFunction : Bool) (body : List Stmt) (h : Stmt.WrittenAll body)
    {layers : List Layer} (ho : Layer.Open layers) {s t : State} (hs : Settled layers s t) :
    Settled layers (statements inFunction body s)
        (statements inFunction (Stmt.desugarAll body) t) ∧
      Recording (Stmt.nodeIdsAll body) (records s t)
        (records (statements inFunction body s) (statements inFunction (Stmt.desugarAll body) t))
        fun known => Stmt.TiedAll known layers body := by
  match body with
  | [] => exact ⟨hs, .refl _⟩
  | stmt :: rest =>
      obtain ⟨hf, hfirst⟩ := statement_both inFunction stmt h.1 (.inr ho) hs
      obtain ⟨hr, hrest⟩ := statements_both inFunction rest h.2 ho hf
      exact ⟨hr, hfirst.append hrest⟩

theorem optionalStatement_both (inFunction : Bool) (o : Option Stmt) (h : Stmt.WrittenOptional o)
    {layers : List Layer} (ho : ∀ s, o = some s → s.plain = true ∨ Layer.Open layers)
    {s t : State} (hs : Settled layers s t) :
    Settled layers (optionalStatement inFunction o s)
        (optionalStatement inFunction (Stmt.desugarOptional o) t) ∧
      Recording (Stmt.nodeIdsOptional o) (records s t)
        (records (optionalStatement inFunction o s)
          (optionalStatement inFunction (Stmt.desugarOptional o) t))
        fun known => Stmt.TiedOptional known layers o := by
  match o with
  | none => exact ⟨hs, .refl _⟩
  | some stmt => exact statement_both inFunction stmt h (ho stmt rfl) hs

end

/-- A program is bound as it is written with the faults it has with its loops written out,
and with distances that lead to the same scopes. -/
theorem program_both {body : List Stmt} (h : Stmt.WrittenAll body) (r : Records) :
    (program (Stmt.desugarAll body) r.2).faults = (program body r.1).faults ∧
      Recording (Stmt.nodeIdsAll body) r
        ((program body r.1).distances, (program (Stmt.desugarAll body) r.2).distances)
        fun known => Stmt.TiedAll known [] body := by
  have hstart : Settled [] ⟨[], r.1, []⟩ ⟨[], r.2, []⟩ := ⟨.nil, List.forall_mem_nil _, rfl⟩
  obtain ⟨hs, hrecording⟩ := statements_both false body h Layer.open_nil hstart
  exact ⟨hs.faults, hrecording⟩

end Binding

end Lox

import Lox.Proofs.Scoping.Linked

/-!
# The resolver links a program

A program that the resolver walks without a fault is linked by the distances it
records. Later distances do no harm, because no number is given to two nodes.
-/

namespace Lox

namespace Binding

/-! ## Walks -/

/-- A walk over nodes reports faults on top and records distances of these nodes only. -/
structure Walk (ids : List NodeId) (s s' : State) : Prop where
  faults : s.faults <+: s'.faults
  outside : ∀ id, id ∉ ids → s'.distances.find? id = s.distances.find? id

/-- A walk over nodes that, if it reports no fault, leaves distances behind with which
something holds, whatever else is known of these distances. -/
def Links (ids : List NodeId) (s s' : State) (P : Recorded → Prop) : Prop :=
  Walk ids s s' ∧ (s'.faults = s.faults → ids.Nodup → (∀ id ∈ ids, s.distances.find? id = none) →
    ∀ recorded : Recorded, (∀ id ∈ ids, recorded id (s'.distances.find? id)) → P recorded)

section Rules

variable {ids ids' : List NodeId} {s s' s'' : State} {P Q : Recorded → Prop}

theorem Links.mono (h : Links ids s s' P) (hPQ : ∀ recorded, P recorded → Q recorded) :
    Links ids s s' Q :=
  ⟨h.1, fun hf hn hs recorded ht => hPQ recorded (h.2 hf hn hs recorded ht)⟩

theorem Links.perm (h : Links ids s s' P) (hp : ids'.Perm ids) : Links ids' s s' P := by
  refine ⟨⟨h.1.faults, fun id hid => h.1.outside id (mt hp.mem_iff.2 hid)⟩,
    fun hf hn hs recorded ht => ?_⟩
  exact h.2 hf (hp.nodup_iff.1 hn) (fun id hid => hs id (hp.mem_iff.2 hid)) recorded
    fun id hid => ht id (hp.mem_iff.2 hid)

theorem Links.refl (s : State) : Links [] s s fun _ => True :=
  ⟨⟨List.prefix_refl _, fun _ _ => rfl⟩, fun _ _ _ _ _ => trivial⟩

theorem Links.append (h : Links ids s s' P) (h' : Links ids' s' s'' Q) :
    Links (ids ++ ids') s s'' fun recorded => P recorded ∧ Q recorded := by
  refine ⟨⟨h.1.faults.trans h'.1.faults, fun id hid => ?_⟩, fun hf hn hs recorded ht => ?_⟩
  · rw [List.mem_append, not_or] at hid
    rw [h'.1.outside id hid.2, h.1.outside id hid.1]
  · obtain ⟨hn₁, hn₂, hne⟩ := List.nodup_append.1 hn
    have hf₁ : s'.faults = s.faults := by
      have hp := h'.1.faults
      rw [hf] at hp
      exact hp.eq_of_length (Nat.le_antisymm hp.length_le h.1.faults.length_le)
    refine ⟨h.2 hf₁ hn₁ (fun id hid => hs id (List.mem_append_left _ hid)) recorded
        fun id hid => ?_,
      h'.2 (hf.trans hf₁.symm) hn₂ (fun id hid => ?_) recorded
        fun id hid => ht id (List.mem_append_right _ hid)⟩
    · rw [← h'.1.outside id fun hid' => hne id hid id hid' rfl]
      exact ht id (List.mem_append_left _ hid)
    · rw [h.1.outside id fun hid' => hne id hid' id hid rfl]
      exact hs id (List.mem_append_right _ hid)

/-- A step that touches neither faults nor distances. -/
theorem Links.silent (h : Links ids s s' P) (hf : s''.faults = s'.faults)
    (hd : s''.distances = s'.distances) : Links ids s s'' P := by
  refine ⟨⟨hf ▸ h.1.faults, fun id hid => hd ▸ h.1.outside id hid⟩, fun hf' hn hs recorded ht => ?_⟩
  exact h.2 (hf.symm.trans hf') hn hs recorded (hd ▸ ht)

/-- The same before the first step. -/
theorem Links.start (h : Links ids s' s'' P) (hf : s'.faults = s.faults)
    (hd : s'.distances = s.distances) : Links ids s s'' P := by
  refine ⟨⟨hf ▸ h.1.faults, fun id hid => hd ▸ h.1.outside id hid⟩, fun hf' hn hs recorded ht => ?_⟩
  exact h.2 (hf'.trans hf.symm) hn (fun id hid => hd ▸ hs id hid) recorded ht

end Rules

theorem scopes_enter (s : State) (name : String) (ready : Bool) :
    (s.enter name ready).scopes = Scopes.enter s.scopes name ready := by
  obtain ⟨scopes, distances, faults⟩ := s
  cases scopes <;> rfl

theorem faults_enter (s : State) (name : String) (ready : Bool) :
    (s.enter name ready).faults = s.faults := by
  obtain ⟨scopes, distances, faults⟩ := s
  cases scopes <;> rfl

theorem distances_enter (s : State) (name : String) (ready : Bool) :
    (s.enter name ready).distances = s.distances := by
  obtain ⟨scopes, distances, faults⟩ := s
  cases scopes <;> rfl

theorem scopes_declare (s : State) (name : Token) :
    (s.declare name).scopes = Scopes.declare s.scopes name := by
  unfold State.declare
  split <;> exact scopes_enter s name.lexeme false

theorem scopes_introduce (s : State) (name : Token) :
    (s.introduce name).scopes = Scopes.introduce s.scopes name := by
  rw [State.introduce, State.define, scopes_enter, scopes_declare]
  rfl

theorem scopes_link (s : State) (id : NodeId) (name : Token) :
    (s.link id name).scopes = s.scopes := by
  unfold State.link
  split <;> rfl

theorem faults_link (s : State) (id : NodeId) (name : Token) :
    (s.link id name).faults = s.faults := by
  unfold State.link
  split <;> rfl

theorem find?_record (distances : Distances) (id id' : NodeId) (distance : Nat) :
    (distances.record id distance).find? id' =
      if id' = id then some distance else distances.find? id' := by
  rw [Distances.find?, Distances.record, List.lookup_cons]
  by_cases h : id' = id
  · rw [if_pos h, beq_iff_eq.2 h]
  · rw [if_neg h, beq_eq_false_iff_ne.2 h]
    rfl

/-- A node whose name is declared gets its distance, and any other one stays without. -/
theorem link_links (s : State) (id : NodeId) (name : Token) :
    Links [id] s (s.link id name) fun recorded =>
      recorded id (Scopes.distance? s.scopes name.lexeme) := by
  refine ⟨⟨faults_link s id name ▸ List.prefix_refl _, fun id' hid => ?_⟩,
    fun _ _ hs recorded ht => ?_⟩
  · unfold State.link
    split
    · exact (find?_record ..).trans (if_neg fun h => hid (List.mem_singleton.2 h))
    · rfl
  · have hid : id ∈ [id] := List.mem_singleton.2 rfl
    have hfind : (s.link id name).distances.find? id = Scopes.distance? s.scopes name.lexeme := by
      unfold State.link
      split
      · rename_i distance hd
        exact ((find?_record ..).trans (if_pos rfl)).trans hd.symm
      · rename_i hd
        exact (hs id hid).trans hd.symm
    exact hfind ▸ ht id hid

theorem read_links (s : State) (id : NodeId) (name : Token) :
    Links [id] s (s.read id name) fun recorded =>
      recorded id (Scopes.distance? s.scopes name.lexeme) ∧
        Scopes.innermost? s.scopes name.lexeme ≠ some false := by
  unfold State.read
  split
  · refine ⟨⟨?_, fun id' hid => (link_links (s.report _ _) id name).1.outside id' hid⟩,
      fun hf => ?_⟩
    · rw [faults_link]
      exact List.prefix_append _ _
    · rw [faults_link] at hf
      have := congrArg List.length hf
      simp [State.report] at this
  · rename_i h
    exact (link_links s id name).mono fun recorded ht => ⟨ht, h⟩

theorem scopes_read (s : State) (id : NodeId) (name : Token) :
    (s.read id name).scopes = s.scopes := by
  unfold State.read
  rw [scopes_link]
  split <;> rfl

/-- A second declaration in one scope is reported. -/
theorem declare_links (s : State) (name : Token) :
    Links [] s (s.declare name) fun _ => Scopes.innermost? s.scopes name.lexeme = none := by
  unfold State.declare
  split
  · refine ⟨⟨?_, fun id _ => by rw [State.report, distances_enter]⟩, fun hf => ?_⟩
    · rw [State.report, faults_enter]
      exact List.prefix_append _ _
    · rw [State.report, faults_enter] at hf
      have := congrArg List.length hf
      simp at this
  · rename_i h
    refine ⟨⟨faults_enter s name.lexeme false ▸ List.prefix_refl _,
      fun id _ => by rw [distances_enter]⟩, fun _ _ _ _ _ => ?_⟩
    exact Option.not_isSome_iff_eq_none.1 h

theorem define_links {ids : List NodeId} {s s' : State} {P : Recorded → Prop}
    (h : Links ids s s' P) (name : Token) : Links ids s (s'.define name) P :=
  h.silent (faults_enter ..) (distances_enter ..)

mutual

theorem scopes_expression (e : Expr) (s : State) : (expression e s).scopes = s.scopes := by
  match e with
  | .literal _ => rfl
  | .group inner => exact scopes_expression inner s
  | .unary _ operand => exact scopes_expression operand s
  | .binary left _ right | .logical left _ right =>
      exact (scopes_expression right _).trans (scopes_expression left s)
  | .variable id name => exact scopes_read s id name
  | .assign id name value => exact (scopes_link ..).trans (scopes_expression value s)
  | .call callee _ arguments =>
      exact (scopes_expressions arguments _).trans (scopes_expression callee s)

theorem scopes_expressions (es : List Expr) (s : State) : (expressions es s).scopes = s.scopes := by
  match es with
  | [] => rfl
  | e :: rest => exact (scopes_expressions rest _).trans (scopes_expression e s)

end

theorem scopes_optionalExpression (o : Option Expr) (s : State) :
    (optionalExpression o s).scopes = s.scopes := by
  cases o with
  | none => rfl
  | some e => exact scopes_expression e s

mutual

theorem expression_links (e : Expr) (s : State) :
    Links e.nodeIds s (expression e s) fun recorded => e.Linked recorded s.scopes := by
  match e with
  | .literal _ => exact .refl s
  | .group inner => exact expression_links inner s
  | .unary _ operand => exact expression_links operand s
  | .binary left _ right | .logical left _ right =>
      have h := expression_links right (expression left s)
      rw [scopes_expression] at h
      exact (expression_links left s).append h
  | .variable id name => exact read_links s id name
  | .assign id name value =>
      have h := link_links (expression value s) id name
      rw [scopes_expression] at h
      have hperm : ([id] ++ value.nodeIds).Perm (value.nodeIds ++ [id]) := List.perm_append_comm
      exact ((expression_links value s).append h).perm hperm
  | .call callee _ arguments =>
      have h := expressions_link arguments (expression callee s)
      rw [scopes_expression] at h
      exact (expression_links callee s).append h

theorem expressions_link (es : List Expr) (s : State) :
    Links (Expr.nodeIdsAll es) s (expressions es s) fun recorded =>
      Expr.LinkedAll recorded s.scopes es := by
  match es with
  | [] => exact .refl s
  | e :: rest =>
      have h := expressions_link rest (expression e s)
      rw [scopes_expression] at h
      exact (expression_links e s).append h

end

theorem optionalExpression_links (o : Option Expr) (s : State) :
    Links (Expr.nodeIdsOptional o) s (optionalExpression o s) fun recorded =>
      Expr.LinkedOptional recorded s.scopes o := by
  cases o with
  | none => exact .refl s
  | some e => exact expression_links e s

/-! ## Statements -/

theorem Scopes.tail_enter (scopes : Scopes) (name : String) (ready : Bool) :
    (scopes.enter name ready).tail = scopes.tail := by
  cases scopes <;> rfl

theorem Scopes.tail_introduce (scopes : Scopes) (name : Token) :
    (scopes.introduce name).tail = scopes.tail := by
  rw [introduce, declare, tail_enter, tail_enter]

theorem Scopes.tail_behind (scopes : Scopes) (s : Stmt) : (scopes.behind s).tail = scopes.tail := by
  unfold behind
  split
  · exact tail_introduce ..
  · exact tail_introduce ..
  · rfl

theorem Scopes.behind_plain {s : Stmt} (h : s.plain = true) (scopes : Scopes) :
    scopes.behind s = scopes := by
  cases s <;> first | rfl | cases h

theorem scopes_introduceAll (params : List Token) (s : State) :
    (params.foldl State.introduce s).scopes = params.foldl Scopes.introduce s.scopes := by
  induction params generalizing s with
  | nil => rfl
  | cons name params ih =>
      rw [List.foldl_cons, List.foldl_cons, ih, scopes_introduce]

theorem Scopes.tail_introduceAll (params : List Token) (scopes : Scopes) :
    (params.foldl Scopes.introduce scopes).tail = scopes.tail := by
  induction params generalizing scopes with
  | nil => rfl
  | cons name params ih => rw [List.foldl_cons, ih, tail_introduce]

/-- A walk leaves everything but the innermost scope as it was. -/
theorem Scopes.tail_behindAll (body : List Stmt) (scopes : Scopes) :
    (body.foldl behind scopes).tail = scopes.tail := by
  induction body generalizing scopes with
  | nil => rfl
  | cons s body ih => rw [List.foldl_cons, ih, tail_behind]

theorem Scopes.behindAll_nil (body : List Stmt) : body.foldl behind [] = [] := by
  induction body with
  | nil => rfl
  | cons s body ih => rw [List.foldl_cons, behind_nil, ih]

mutual

theorem scopes_statement (inFunction : Bool) (stmt : Stmt) (h : stmt.Proper) (s : State) :
    (statement inFunction stmt s).scopes = Scopes.behind s.scopes stmt := by
  match stmt with
  | .expression value | .print value => exact scopes_expression value s
  | .var name initializer =>
      rw [statement, State.define, scopes_enter, scopes_optionalExpression, scopes_declare]
      rfl
  | .block body =>
      show (statements inFunction body s.openScope).scopes.tail = s.scopes
      rw [scopes_statements inFunction body h, Scopes.tail_behindAll]
      rfl
  | .ifThen condition thenBranch elseBranch =>
      rw [statement, scopes_optionalStatement inFunction elseBranch h.2,
        scopes_statement inFunction thenBranch h.1.2, Scopes.behind_plain h.1.1, scopes_expression]
      rfl
  | .whileLoop condition body =>
      rw [statement, scopes_statement inFunction body h.2, Scopes.behind_plain h.1,
        scopes_expression]
      rfl
  | .function name params body =>
      show (statements true body (params.foldl State.introduce
        (s.introduce name).openScope)).scopes.tail = Scopes.introduce s.scopes name
      rw [scopes_statements true body h, Scopes.tail_behindAll, scopes_introduceAll,
        Scopes.tail_introduceAll]
      exact scopes_introduce s name
  | .ret keyword value =>
      rw [statement, scopes_optionalExpression]
      split <;> rfl

theorem scopes_statements (inFunction : Bool) (body : List Stmt) (h : Stmt.ProperAll body)
    (s : State) : (statements inFunction body s).scopes = body.foldl Scopes.behind s.scopes := by
  match body with
  | [] => rfl
  | stmt :: rest =>
      rw [statements, scopes_statements inFunction rest h.2, scopes_statement inFunction stmt h.1]
      rfl

theorem scopes_optionalStatement (inFunction : Bool) (o : Option Stmt) (h : Stmt.ProperBranch o)
    (s : State) : (optionalStatement inFunction o s).scopes = s.scopes := by
  match o with
  | none => rfl
  | some stmt =>
      rw [optionalStatement, scopes_statement inFunction stmt h.2, Scopes.behind_plain h.1]

end

/-- A walk over a whole program ends where it began, in no scope. -/
theorem scopes_program {body : List Stmt} (h : Stmt.ProperAll body) (distances : Distances) :
    (program body distances).scopes = [] := by
  rw [program, scopes_statements false body h]
  exact Scopes.behindAll_nil body

theorem introduce_links (s : State) (name : Token) :
    Links [] s (s.introduce name) fun _ => Scopes.innermost? s.scopes name.lexeme = none :=
  define_links (declare_links s name) name

theorem introduceAll_links (params : List Token) (s : State) :
    Links [] s (params.foldl State.introduce s) fun _ => Scopes.Fresh s.scopes params := by
  induction params generalizing s with
  | nil => exact .refl s
  | cons name params ih =>
      refine ((introduce_links s name).append (ih (s.introduce name))).mono fun _ h => ?_
      rw [scopes_introduce] at h
      exact h

mutual

theorem statement_links (inFunction : Bool) (stmt : Stmt) (h : stmt.Proper) (s : State) :
    Links stmt.nodeIds s (statement inFunction stmt s) fun recorded =>
      stmt.Linked recorded inFunction s.scopes := by
  match stmt with
  | .expression value | .print value => exact expression_links value s
  | .var name initializer =>
      have ho := optionalExpression_links initializer (s.declare name)
      rw [scopes_declare] at ho
      exact define_links ((declare_links s name).append ho) name
  | .block body =>
      have hb := (statements_link inFunction body h s.openScope).start (s := s) rfl rfl
      exact hb.silent rfl rfl
  | .ifThen condition thenBranch elseBranch =>
      have ht := statement_links inFunction thenBranch h.1.2 (expression condition s)
      have he := optionalStatement_links inFunction elseBranch h.2
        (statement inFunction thenBranch (expression condition s))
      rw [scopes_statement inFunction thenBranch h.1.2, Scopes.behind_plain h.1.1,
        scopes_expression] at he
      rw [scopes_expression] at ht
      refine (((expression_links condition s).append ht).append he).mono ?_
      intro recorded hl
      exact ⟨hl.1.1, ⟨h.1.1, hl.1.2⟩, hl.2⟩
  | .whileLoop condition body =>
      have hb := statement_links inFunction body h.2 (expression condition s)
      rw [scopes_expression] at hb
      exact ((expression_links condition s).append hb).mono fun recorded hl => ⟨hl.1, h.1, hl.2⟩
  | .function name params body =>
      have hb := statements_link true body h
        (params.foldl State.introduce (s.introduce name).openScope)
      rw [scopes_introduceAll] at hb
      have hp := (introduceAll_links params (s.introduce name).openScope).start
        (s := s.introduce name) rfl rfl
      have hall : Links _ s (statement inFunction (.function name params body) s) _ :=
        (((introduce_links s name).append hp).append hb).silent rfl rfl
      refine hall.mono fun recorded hl => ⟨hl.1.1, ?_⟩
      obtain ⟨⟨-, hparams⟩, hbody⟩ := hl
      rw [show (s.introduce name).openScope.scopes = [] :: (s.introduce name).scopes from rfl,
        scopes_introduce] at hparams hbody
      exact ⟨hparams, hbody⟩
  | .ret keyword value =>
      cases inFunction with
      | true => exact (optionalExpression_links value s).mono fun recorded hl => ⟨rfl, hl⟩
      | false =>
          refine ⟨⟨?_, (optionalExpression_links value (s.report _ keyword)).1.outside⟩,
            fun hf => ?_⟩
          · exact (List.prefix_append _ _).trans
              (optionalExpression_links value (s.report _ keyword)).1.faults
          · have hle :=
              (optionalExpression_links value (s.report .returnFromTopLevel keyword)).1.faults
            have hlen := hle.length_le
            rw [show (optionalExpression value (s.report .returnFromTopLevel keyword)).faults =
              s.faults from hf, State.report, List.length_append, List.length_singleton] at hlen
            omega

theorem statements_link (inFunction : Bool) (body : List Stmt) (h : Stmt.ProperAll body)
    (s : State) :
    Links (Stmt.nodeIdsAll body) s (statements inFunction body s) fun recorded =>
      Stmt.LinkedAll recorded inFunction s.scopes body := by
  match body with
  | [] => exact .refl s
  | stmt :: rest =>
      have hr := statements_link inFunction rest h.2 (statement inFunction stmt s)
      rw [scopes_statement inFunction stmt h.1] at hr
      exact (statement_links inFunction stmt h.1 s).append hr

theorem optionalStatement_links (inFunction : Bool) (o : Option Stmt) (h : Stmt.ProperBranch o)
    (s : State) :
    Links (Stmt.nodeIdsOptional o) s (optionalStatement inFunction o s) fun recorded =>
      Stmt.LinkedBranch recorded inFunction s.scopes o := by
  match o with
  | none => exact .refl s
  | some stmt =>
      exact (statement_links inFunction stmt h.2 s).mono fun recorded hl => ⟨h.1, hl⟩

end

end Binding

end Lox

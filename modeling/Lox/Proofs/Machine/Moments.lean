import Lox.Proofs.Machine.Fuel
import Lox.Proofs.Machine.Kept

/-!
# The runs within a run

Most of what a rule of evaluation does is to use other rules, each on the machine that the
one before has left behind. A `Moment` is a machine with the job that is at hand and the
values that are being held for later. `Within` leads from a statement to the statements it
is made of, as far as they are run; `Enters` leads on to operands, arguments and the bodies
of the functions that are called as well. A moment is there as soon as all that comes before
it has ended, so those of a run that has no answer, or one that ends in a fault, are there
all the same.
-/

namespace Lox

/-- What a machine can be asked to do. -/
inductive Job
  | evaluate (e : Expr)
  | evaluateAll (es : List Expr)
  | call (callee : Value) (paren : Token) (arguments : List Value)
  | execute (s : Stmt)
  | executeAll (body : List Stmt)
  | loop (condition : Expr) (body : Stmt) (increment : Option Expr)

/-- The values that are handed on when a statement has ended. -/
def Completion.values : Completion → List Value
  | normal => []
  | returned value => [value]

namespace Job

/-- What a job gives. -/
abbrev Result : Job → Type
  | evaluate _ | call .. => Value
  | evaluateAll _ => List Value
  | execute _ | executeAll _ | loop .. => Completion

def run (n : Nat) : (t : Job) → Run t.Result
  | evaluate e => Run.evaluate n e
  | evaluateAll es => Run.evaluateAll n es
  | call callee paren arguments => Run.call n callee paren arguments
  | execute s => Run.execute n s
  | executeAll body => Run.executeAll n body
  | loop condition body increment => Run.loop n condition body increment

/-- The values that a job begins with. -/
def values : Job → List Value
  | call callee _ arguments => callee :: arguments
  | _ => []

/-- The values in what a job gives. -/
def gives : (t : Job) → t.Result → List Value
  | evaluate _, value | call .., value => [value]
  | evaluateAll _, values => values
  | execute _, completion | executeAll _, completion | loop .., completion => completion.values

/-- The values that are handed on when a job has ended: after a fault there are none. -/
def handed (t : Job) : Except Machine.Fault t.Result → List Value
  | .ok a => t.gives a
  | .error _ => []

/-- With some amount of fuel the job ends like this. -/
def Ends (t : Job) (m : Machine) (result : Except Machine.Fault t.Result) (m' : Machine) : Prop :=
  ∃ n, (t.run n).run m = some (result, m')

/-- The job gives a result. -/
abbrev Gives (t : Job) (m : Machine) (a : t.Result) (m' : Machine) : Prop := t.Ends m (.ok a) m'

theorem run_extends {n n' : Nat} (h : n ≤ n') (t : Job) : Run.Extends (t.run n) (t.run n') := by
  induction h with
  | refl => exact .refl _
  | step _ ih =>
      refine ih.trans ?_
      cases t with
      | evaluate e => exact (Run.extended _).evaluate e
      | evaluateAll es => exact (Run.extended _).evaluateAll es
      | call callee paren arguments => exact (Run.extended _).call callee paren arguments
      | execute s => exact (Run.extended _).execute s
      | executeAll body => exact (Run.extended _).executeAll body
      | loop condition body increment => exact (Run.extended _).loop condition body increment

theorem Ends.keeps {R : Machine → Machine → Prop} (hR : Machine.Kept R) {t : Job}
    {m m' : Machine} {result : Except Machine.Fault t.Result} (h : t.Ends m result m') :
    R m m' := by
  obtain ⟨n, hn⟩ := h
  cases t with
  | evaluate e => exact (Run.keeping hR n).evaluate e _ _ _ hn
  | evaluateAll es => exact (Run.keeping hR n).evaluateAll es _ _ _ hn
  | call callee paren arguments => exact (Run.keeping hR n).call callee paren arguments _ _ _ hn
  | execute s => exact (Run.keeping hR n).execute s _ _ _ hn
  | executeAll body => exact (Run.keeping hR n).executeAll body _ _ _ hn
  | loop condition body increment =>
      exact (Run.keeping hR n).loop condition body increment _ _ _ hn

/-- A program does what its statements do one after the other, up to one that returns. -/
theorem ends_of_program {n : Nat} {body : List Stmt} {m m' : Machine}
    {result : Except Machine.Fault Unit} (h : (Run.program n body).run m = some (result, m')) :
    ∃ result', (executeAll body).Ends m result' m' := by
  induction body generalizing m with
  | nil =>
      cases h
      exact ⟨.ok .normal, 1, rfl⟩
  | cons first rest ih =>
      rw [Run.program, run_bind] at h
      rcases hs : (Run.execute n first).run m with _ | ⟨fault | completion, m₁⟩ <;> rw [hs] at h
      · cases h
      · cases h
        exact ⟨.error fault, n + 1, by rw [run, Run.executeAll, run_bind, hs]⟩
      · cases completion with
        | returned value =>
            cases h
            exact ⟨.ok (.returned value), n + 1, run_bind_of_ok hs⟩
        | normal =>
            obtain ⟨result', k, hk⟩ := ih h
            have hfirst := run_extends (Nat.le_max_left n k) (execute first) _ _ hs
            have hrest := run_extends (Nat.le_max_right n k) (executeAll rest) _ _ hk
            exact ⟨result', max n k + 1, (run_bind_of_ok hfirst).trans hrest⟩

end Job

/-- A machine with its job, and the values that are held for what comes behind the job. -/
structure Moment where
  job : Job
  machine : Machine
  held : List Value

/-- The values at hand. -/
def Moment.values (p : Moment) : List Value := p.job.values ++ p.held

open Job

/-- Behind the body of a loop its increment has been evaluated, if there is one. -/
def Stepped (increment : Option Expr) (m m' : Machine) : Prop :=
  match increment with
  | none => m' = m
  | some step => ∃ value, (evaluate step).Gives m value m'

/-- From a statement to one that is run as a part of it, in the same body. -/
inductive Within : Moment → Moment → Prop
  | first {s : Stmt} {rest : List Stmt} {m : Machine} {held : List Value} :
    Within ⟨.executeAll (s :: rest), m, held⟩ ⟨.execute s, m, held⟩
  | rest {s : Stmt} {rest : List Stmt} {m m' : Machine} {held : List Value}
    (hfirst : (execute s).Gives m .normal m') :
    Within ⟨.executeAll (s :: rest), m, held⟩ ⟨.executeAll rest, m', held⟩
  | block {body : List Stmt} {m : Machine} {held : List Value} :
    Within ⟨.execute (.block body), m, held⟩ ⟨.executeAll body, m.entered m.current [], held⟩
  | thenBranch {condition : Expr} {s : Stmt} {o : Option Stmt} {value : Value} {m m' : Machine}
    {held : List Value} (hcondition : (evaluate condition).Gives m value m')
    (ht : value.truthy = true) :
    Within ⟨.execute (.ifThen condition s o), m, held⟩ ⟨.execute s, m', held⟩
  | elseBranch {condition : Expr} {s s' : Stmt} {value : Value} {m m' : Machine}
    {held : List Value} (hcondition : (evaluate condition).Gives m value m')
    (ht : value.truthy = false) :
    Within ⟨.execute (.ifThen condition s (some s')), m, held⟩ ⟨.execute s', m', held⟩
  | whileLoop {condition : Expr} {body : Stmt} {m : Machine} {held : List Value} :
    Within ⟨.execute (.whileLoop condition body), m, held⟩ ⟨.loop condition body none, m, held⟩
  | forLoop {condition increment : Option Expr} {body : Stmt} {m : Machine} {held : List Value} :
    Within ⟨.execute (.forLoop none condition increment body), m, held⟩
      ⟨.loop (Stmt.loopCondition condition) body increment, m, held⟩
  | initializer {s body : Stmt} {condition increment : Option Expr} {m : Machine}
    {held : List Value} :
    Within ⟨.execute (.forLoop (some s) condition increment body), m, held⟩
      ⟨.execute s, m.entered m.current [], held⟩
  | initialized {s body : Stmt} {condition increment : Option Expr} {m m' : Machine}
    {held : List Value} (hs : (execute s).Gives (m.entered m.current []) .normal m') :
    Within ⟨.execute (.forLoop (some s) condition increment body), m, held⟩
      ⟨.loop (Stmt.loopCondition condition) body increment, m', held⟩
  | body {condition : Expr} {body : Stmt} {increment : Option Expr} {value : Value}
    {m m' : Machine} {held : List Value} (hcondition : (evaluate condition).Gives m value m')
    (ht : value.truthy = true) :
    Within ⟨.loop condition body increment, m, held⟩ ⟨.execute body, m', held⟩
  | again {condition : Expr} {body : Stmt} {increment : Option Expr} {value : Value}
    {m m₁ m₂ m' : Machine} {held : List Value} (hcondition : (evaluate condition).Gives m value m₁)
    (ht : value.truthy = true) (hbody : (execute body).Gives m₁ .normal m₂)
    (hstep : Stepped increment m₂ m') :
    Within ⟨.loop condition body increment, m, held⟩ ⟨.loop condition body increment, m', held⟩

/-- From a job to one that is done as a part of it. -/
inductive Enters : Moment → Moment → Prop
  | within {p q : Moment} (h : Within p q) : Enters p q
  | group {e : Expr} {m : Machine} {held : List Value} :
    Enters ⟨.evaluate (.group e), m, held⟩ ⟨.evaluate e, m, held⟩
  | operand {operator : Token} {e : Expr} {m : Machine} {held : List Value} :
    Enters ⟨.evaluate (.unary operator e), m, held⟩ ⟨.evaluate e, m, held⟩
  | left {left right : Expr} {operator : Token} {m : Machine} {held : List Value} :
    Enters ⟨.evaluate (.binary left operator right), m, held⟩ ⟨.evaluate left, m, held⟩
  | right {left right : Expr} {operator : Token} {a : Value} {m m' : Machine} {held : List Value}
    (hleft : (evaluate left).Gives m a m') :
    Enters ⟨.evaluate (.binary left operator right), m, held⟩ ⟨.evaluate right, m', a :: held⟩
  | deciding {left right : Expr} {operator : Token} {m : Machine} {held : List Value} :
    Enters ⟨.evaluate (.logical left operator right), m, held⟩ ⟨.evaluate left, m, held⟩
  | undecided {left right : Expr} {operator : Token} {a : Value} {m m' : Machine}
    {held : List Value} (hleft : (evaluate left).Gives m a m')
    (ha : Run.decidedBy operator a = false) :
    Enters ⟨.evaluate (.logical left operator right), m, held⟩ ⟨.evaluate right, m', held⟩
  | assigned {id : NodeId} {name : Token} {e : Expr} {m : Machine} {held : List Value} :
    Enters ⟨.evaluate (.assign id name e), m, held⟩ ⟨.evaluate e, m, held⟩
  | callee {e : Expr} {paren : Token} {es : List Expr} {m : Machine} {held : List Value} :
    Enters ⟨.evaluate (.call e paren es), m, held⟩ ⟨.evaluate e, m, held⟩
  | arguments {e : Expr} {paren : Token} {es : List Expr} {callee : Value} {m m' : Machine}
    {held : List Value} (hcallee : (evaluate e).Gives m callee m') :
    Enters ⟨.evaluate (.call e paren es), m, held⟩ ⟨.evaluateAll es, m', callee :: held⟩
  | call {e : Expr} {paren : Token} {es : List Expr} {callee : Value} {arguments : List Value}
    {m m₁ m' : Machine} {held : List Value} (hcallee : (evaluate e).Gives m callee m₁)
    (harguments : (evaluateAll es).Gives m₁ arguments m') :
    Enters ⟨.evaluate (.call e paren es), m, held⟩ ⟨.call callee paren arguments, m', held⟩
  | firstArgument {e : Expr} {es : List Expr} {m : Machine} {held : List Value} :
    Enters ⟨.evaluateAll (e :: es), m, held⟩ ⟨.evaluate e, m, held⟩
  | moreArguments {e : Expr} {es : List Expr} {a : Value} {m m' : Machine} {held : List Value}
    (hfirst : (evaluate e).Gives m a m') :
    Enters ⟨.evaluateAll (e :: es), m, held⟩ ⟨.evaluateAll es, m', a :: held⟩
  /-- The function that is called is held through its body. -/
  | callBody {serial : Nat} {declaration : Declaration} {closure : ScopeId} {paren : Token}
    {arguments : List Value} {m : Machine} {held : List Value}
    (harity : arguments.length = declaration.params.length) :
    Enters ⟨.call (.function serial declaration closure) paren arguments, m, held⟩
      ⟨.executeAll declaration.body, m.entered closure (declaration.params.zip arguments),
        .function serial declaration closure :: held⟩
  | value {e : Expr} {m : Machine} {held : List Value} :
    Enters ⟨.execute (.expression e), m, held⟩ ⟨.evaluate e, m, held⟩
  | printed {e : Expr} {m : Machine} {held : List Value} :
    Enters ⟨.execute (.print e), m, held⟩ ⟨.evaluate e, m, held⟩
  | initialValue {name : Token} {e : Expr} {m : Machine} {held : List Value} :
    Enters ⟨.execute (.var name (some e)), m, held⟩ ⟨.evaluate e, m, held⟩
  | condition {condition : Expr} {s : Stmt} {o : Option Stmt} {m : Machine} {held : List Value} :
    Enters ⟨.execute (.ifThen condition s o), m, held⟩ ⟨.evaluate condition, m, held⟩
  | loopCondition {condition : Expr} {body : Stmt} {increment : Option Expr} {m : Machine}
    {held : List Value} :
    Enters ⟨.loop condition body increment, m, held⟩ ⟨.evaluate condition, m, held⟩
  | increment {condition step : Expr} {body : Stmt} {value : Value} {m m₁ m' : Machine}
    {held : List Value} (hcondition : (evaluate condition).Gives m value m₁)
    (ht : value.truthy = true) (hbody : (execute body).Gives m₁ .normal m') :
    Enters ⟨.loop condition body (some step), m, held⟩ ⟨.evaluate step, m', held⟩
  | returned {keyword : Token} {e : Expr} {m : Machine} {held : List Value} :
    Enters ⟨.execute (.ret keyword (some e)), m, held⟩ ⟨.evaluate e, m, held⟩

section Keeps

variable {R : Machine → Machine → Prop} (hR : Machine.Kept R)
include hR

theorem Stepped.keeps {increment : Option Expr} {m m' : Machine} (h : Stepped increment m m') :
    R m m' := by
  cases increment with
  | none => exact (h : m' = m) ▸ hR.refl m
  | some step =>
      obtain ⟨value, hvalue⟩ := h
      exact hvalue.keeps hR

variable (hin : ∀ m parent bindings, R m (m.entered parent bindings))
include hin

/-- What every run keeps is kept from a moment to the next, if going into a new scope keeps
it as well. -/
theorem Within.keeps {p q : Moment} (h : Within p q) : R p.machine q.machine := by
  cases h with
  | first | whileLoop | forLoop => exact hR.refl _
  | rest hfirst => exact hfirst.keeps hR
  | block | initializer => exact hin _ _ _
  | thenBranch hcondition _ | elseBranch hcondition _ | body hcondition _ =>
      exact hcondition.keeps hR
  | initialized hs => exact hR.trans (hin _ _ _) (hs.keeps hR)
  | again hcondition _ hbody hstep =>
      exact hR.trans (hR.trans (hcondition.keeps hR) (hbody.keeps hR)) (hstep.keeps hR)

theorem Enters.keeps {p q : Moment} (h : Enters p q) : R p.machine q.machine := by
  cases h with
  | within h => exact h.keeps hR hin
  | group | operand | left | deciding | assigned | callee | firstArgument | value | printed
  | initialValue | condition | loopCondition | returned => exact hR.refl _
  | right hfirst | undecided hfirst _ | arguments hfirst | moreArguments hfirst =>
      exact hfirst.keeps hR
  | call hcallee harguments => exact hR.trans (hcallee.keeps hR) (harguments.keeps hR)
  | callBody => exact hin _ _ _
  | increment hcondition _ hbody => exact hR.trans (hcondition.keeps hR) (hbody.keeps hR)

end Keeps

end Lox

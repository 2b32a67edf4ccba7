import GuardedObjects.Registry

/-!
# Lint

Every rule of the review on its own, whatever the mode, for a declaration that is not yet accepted.
-/

namespace GuardedObjects

abbrev Findings := List (Rule × Option DeclarationError)

structure ClassLint where
  cls : ClassInfo
  findings : Findings
  /-- The first violation of the rules that were asked for. -/
  first : Option DeclarationError

/-- Lints a class in view of the classes declared so far. `codes` says which rules count for the
first violation. -/
def Registry.lint (r : Registry) (codes : List String) (d : ClassDecl) :
    Except DeclarationError ClassLint := do
  let c ← r.resolve d
  return {
    cls := c
    findings := Rule.all.map fun rule => (rule, rule.classViolation? r.classes c)
    first := r.classes.review? (Rule.all.filter fun rule => codes.contains rule.code) c }

def FunctionDecl.lint (d : FunctionDecl) : Except DeclarationError Findings := do
  let f ← d.resolve
  return Rule.all.map fun rule => (rule, rule.functionViolation? f)

end GuardedObjects

import Maof.Registry.Loader

/-!
# Scope checks

A governed action checks scopes only where a principal is asserted; a trusted
caller in the same process passes none.
-/

namespace Maof

def scopeWorkflowAuthor : String := "workflow:author"

def scopeWorkflowApprove : String := "workflow:approve"

def scopeRegistryAuthor : String := "registry:author"

def scopeRegistryApprove : String := "registry:approve"

/-- `held_scopes`: the principal's own, and the tenant's. -/
def heldScopes (principal : Option Principal) (tenant : Option TenantContext) : List String :=
  ((principal.map Principal.scopes).getD []) ++ ((tenant.map tenantScopes).getD [])

/-- `require_scopes`. -/
def requireScopes (u : Unicode) (principal : Option Principal) (required : List String)
    (tenant : Option TenantContext := none) : Except Exn Unit :=
  match required.filter fun scope => scope ∉ heldScopes principal tenant with
  | [] => .ok ()
  | missing =>
      let who := (principal.map Principal.id).getD "<anonymous>"
      .error (.authz ("principal " ++ Template.reprText u (.str who) ++ " lacks required scope(s): " ++
        Template.reprText u (.strs (missing.dedup.insertionSort (· ≤ ·)))))

/-- What the stores ask of an asserted principal before any work. -/
def checkScope (u : Unicode) (principal : Option Principal) (scope : String) : Except Exn Unit :=
  match principal with
  | none => .ok ()
  | some _ => requireScopes u principal [scope]

theorem checkScope_some (u : Unicode) (who : Principal) (scope : String) :
    checkScope u (some who) scope = .ok () ↔ scope ∈ who.scopes := by
  by_cases held : scope ∈ who.scopes
  · simp [checkScope, requireScopes, heldScopes, held]
  · simp [checkScope, requireScopes, heldScopes, held]

end Maof

import OneOps.RegistryService

/-! Access decisions: the role of the caller gives permissions, and five rules compare them
with what the resource asks for. Every violation is a reason, and access is allowed when
there is none. -/
namespace AuthzRules

open RegistryService
open ExecutorNodes (ExecutionTier)

/-- The caller, from the validated envelope. -/
structure Principal where
  tenantId : String
  userId : String
  role : String
  attributes : List (String × String)
  tenantGiven : tenantId ≠ ""
  roleGiven : role ≠ ""

structure ResourceDescriptor where
  resourceId : String
  resourceTenantId : String
  tier : ExecutionTier
  dataClassification : DataClassification
  audience : List String
  requiredScopes : List String

/-- What a reason for a denial says. -/
inductive Denial where
  | crossTenant (principalTenant resourceTenant : String)
  | audience (role : String) (audience : List String)
  | missingScopes (missing : List String)
  | tier (resourceId role : String)
  | dataClass (classification : DataClassification) (role : String)
  deriving DecidableEq

abbrev Roles := List (String × Finset String)

def permissionsFor (roles : Roles) (role : String) : Finset String :=
  ((roles.find? fun e => e.1 = role).map Prod.snd).getD ∅

def adminPermission : String := "admin"

def broadRead : String := "read:all_tickets"

def writePrefixes : List String := ["write:", "approve:", "create:"]

def isWriteClass (permission : String) : Bool :=
  permission = adminPermission || writePrefixes.any fun p => p.toList.isPrefixOf permission.toList

def sortedNames (names : List String) : List String := names.insertionSort (· ≤ ·)

def audienceRule (p : Principal) (r : ResourceDescriptor) : List Denial :=
  if r.audience ≠ [] ∧ p.role ∉ r.audience then [.audience p.role (sortedNames r.audience)] else []

def scopeRule (r : ResourceDescriptor) (granted : Finset String) : List Denial :=
  if adminPermission ∈ granted then []
  else
    match r.requiredScopes.filter fun s => s ∉ granted with
    | [] => []
    | missing => [.missingScopes (sortedNames missing)]

def tierRule (p : Principal) (r : ResourceDescriptor) (granted : Finset String) : List Denial :=
  if r.tier = .action ∧ ¬ ∃ q ∈ granted, isWriteClass q = true then [.tier r.resourceId p.role]
  else []

def dataClassRule (p : Principal) (r : ResourceDescriptor) (granted : Finset String) :
    List Denial :=
  if (r.dataClassification = .confidential ∨ r.dataClassification = .pii) ∧
      adminPermission ∉ granted ∧ broadRead ∉ granted then
    [.dataClass r.dataClassification p.role]
  else []

/-- Another tenant's resource is refused before any other rule is looked at. -/
def evaluate (p : Principal) (r : ResourceDescriptor) (granted : Finset String) : List Denial :=
  if p.tenantId ≠ r.resourceTenantId then [.crossTenant p.tenantId r.resourceTenantId]
  else audienceRule p r ++ scopeRule r granted ++ tierRule p r granted ++ dataClassRule p r granted

def check (roles : Roles) (p : Principal) (r : ResourceDescriptor) : List Denial :=
  evaluate p r (permissionsFor roles p.role)

def isAllowed (roles : Roles) (p : Principal) (r : ResourceDescriptor) : Bool :=
  check roles p r = []

/-- Scopes are asked for by tools, not by agents. -/
def fromAgentRecord (agent : AgentRecord) (resourceTenantId : String) : ResourceDescriptor where
  resourceId := agent.id
  resourceTenantId := resourceTenantId
  tier := agent.body.abacTags.tier
  dataClassification := agent.body.abacTags.dataClassification
  audience := agent.body.abacTags.audience
  requiredScopes := []

/-- Within the caller's own tenant the role alone decides. -/
theorem check_own_tenant (roles : Roles) (agent : AgentRecord) {p q : Principal}
    (h : p.role = q.role) : check roles p (fromAgentRecord agent p.tenantId) =
      check roles q (fromAgentRecord agent q.tenantId) := by
  unfold check evaluate audienceRule scopeRule tierRule dataClassRule fromAgentRecord
  rw [if_neg (not_not.mpr rfl), if_neg (not_not.mpr rfl), h]

end AuthzRules

import AttowNexus.Model.Ambient

/-! # Permission scopes

`auth/scopes.rs` and `auth/permissions.rs`: which scopes an agent is granted, and whether one of them
covers the scope that an operation requires. A scope that ends in a star covers every scope with its
stem.
-/

namespace AttowNexus

def channelWrite (pattern : String) : String := "channel:write:" ++ pattern

def channelCheckpoint (pattern : String) : String := "channel:checkpoint:" ++ pattern

/-- `permissions::grant_requested` -/
def grantRequested (config : Config) (requested : List PermissionScope) : List PermissionScope :=
  if config.requireAuth = false then [⟨"*"⟩]
  else if requested = [] then
    [⟨"channel:read:*"⟩, ⟨"channel:write:*"⟩, ⟨"channel:checkpoint:*"⟩, ⟨"ledger:read:*"⟩]
  else requested

def scopeMatches (scope required : String) : Bool :=
  if scope = "*" ∨ scope = required then true
  else if scope.toList.getLast? = some '*' then scope.toList.dropLast.isPrefixOf required.toList
  else false

/-- `permissions::is_allowed` -/
def isAllowed (config : Config) (granted : List PermissionScope) (required : String) : Bool :=
  if config.requireAuth = false then true else granted.any fun scope => scopeMatches scope.value required

end AttowNexus

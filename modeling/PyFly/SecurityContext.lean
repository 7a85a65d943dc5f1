import PyFly.Library.InsertionDict

/-!
# Security contexts
-/

namespace PyFly.Security

open Library

structure SecurityContext where
  userId : Option String := none
  roles : List String := []
  permissions : List String := []
  attributes : Dict String String := .empty

namespace SecurityContext

def anonymous : SecurityContext := {}

def isAuthenticated (context : SecurityContext) : Bool :=
  context.userId.isSome

def hasRole (role : String) (context : SecurityContext) : Bool :=
  role ∈ context.roles

/-- `bool(set(self.roles) & set(roles))` -/
def hasAnyRole (roles : List String) (context : SecurityContext) : Bool :=
  context.roles.any fun role => role ∈ roles

def hasPermission (permission : String) (context : SecurityContext) : Bool :=
  permission ∈ context.permissions

end SecurityContext

end PyFly.Security

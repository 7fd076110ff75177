/-!
# Principals

The authenticated actor of a request, as the server introspects its token.
-/

namespace XxAgent.Accounts

abbrev Uuid := Nat

inductive Role where
  | manager
  | specialist
deriving DecidableEq

structure Principal where
  actorId : Uuid
  role : Role
  permissionRevision : Nat
deriving DecidableEq

end XxAgent.Accounts

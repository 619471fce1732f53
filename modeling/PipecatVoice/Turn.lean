import Mathlib.Data.Nat.Notation

/-!
# The TURN client

The state `agent.c` keeps for its allocation on the TURN server: where the
server is, the long-term credential, and the one permission it looks after.

* `TurnClient` — that state;
* `turnRequest` — a signed request;
* `agentTurnRefresh` — the keepalive.
-/

namespace PipecatVoice

/-- The address proper; the constructor is the family. -/
inductive IpAddr where
  | v4 (a : UInt32)
  | v6 (a : Vector UInt16 8)
  deriving DecidableEq

/-- `Address` -/
structure Address where
  /-- `sin_addr` or `sin6_addr` -/
  ip : IpAddr
  /-- `port` -/
  port : UInt16
  deriving DecidableEq

/-- The address after `memset`. -/
def Address.zero : Address := ⟨.v4 0, 0⟩

/-- The two addresses are of one family. -/
def Address.sameFamily (a b : Address) : Bool :=
  match a.ip, b.ip with
  | .v4 _, .v4 _ | .v6 _, .v6 _ => true
  | .v4 _, .v6 _ | .v6 _, .v4 _ => false

/-- A C string, without its terminator. -/
abbrev CString := List UInt8

/-- The TURN members of `Agent`. -/
structure TurnClient where
  /-- `turn_server_addr` -/
  serverAddr : Address
  /-- `turn_username` -/
  username : CString
  /-- `turn_credential` -/
  credential : CString
  /-- `turn_realm` -/
  realm : CString
  /-- `turn_nonce` -/
  nonce : CString
  /-- `turn_allocated` -/
  allocated : Bool
  /-- `turn_permission_addr` -/
  permissionAddr : Address
  /-- `turn_permission_set` -/
  permissionSet : Bool
  deriving DecidableEq

/-- The requests an allocation needs. -/
inductive TurnMethod where
  /-- `STUN_METHOD_CREATE_PERMISSION`, with its XOR-PEER-ADDRESS -/
  | createPermission (peer : Address)
  /-- `STUN_METHOD_REFRESH`, with its LIFETIME in seconds -/
  | refresh (lifetime : UInt32)
  deriving DecidableEq

/-- A signed request, as far as the client decides it; each has a random
transaction id of its own. -/
structure TurnRequest where
  /-- what is asked -/
  method : TurnMethod
  /-- USERNAME -/
  username : CString
  /-- NONCE -/
  nonce : CString
  /-- REALM -/
  realm : CString
  /-- `user:realm:password`, whose MD5 is the key of MESSAGE-INTEGRITY -/
  key : CString
  deriving DecidableEq

/-- A request signed with the long-term credential (`stun_msg_finish`). -/
def turnRequest (t : TurnClient) (method : TurnMethod) : TurnRequest where
  method := method
  username := t.username
  nonce := t.nonce
  realm := t.realm
  key := t.username ++ [0x3A] ++ t.realm ++ [0x3A] ++ t.credential

/-- `agent_turn_refresh`: the requests it sends. -/
def agentTurnRefresh (t : TurnClient) : List TurnRequest :=
  if t.allocated then
    (if t.permissionSet then [turnRequest t (.createPermission t.permissionAddr)] else []) ++
      [turnRequest t (.refresh 600)]
  else []

/-- The peer a request asks a permission for. -/
def TurnRequest.peer? (r : TurnRequest) : Option Address :=
  match r.method with
  | .createPermission peer => some peer
  | .refresh _ => none

/-- The server has acknowledged a permission. -/
def TurnClient.grant (t : TurnClient) (peer : Address) : TurnClient :=
  { t with permissionAddr := peer, permissionSet := true }

/-- The permission the client looks after. -/
def TurnClient.permission (t : TurnClient) : Option Address :=
  if t.permissionSet then some t.permissionAddr else none

/-- The keepalive renews the permission looked after and no other. -/
theorem agentTurnRefresh_peers (t : TurnClient) (h : t.allocated) :
    (agentTurnRefresh t).filterMap TurnRequest.peer? = t.permission.toList := by
  unfold agentTurnRefresh TurnClient.permission
  rw [if_pos h]
  split <;> rfl

end PipecatVoice

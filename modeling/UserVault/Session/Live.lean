import UserVault.Session.Exchange

/-!
# Sessions under way

What a peer sends comes in pieces, and a session answers before the peer has sent all that it will
send.  A request is carried out when all of it has come, its payload included.
-/

namespace UserVault.Session

open Link Protocol

/-- The length of the request at the front of `bytes`, its payload included, if all of it is
there. -/
def requestLength? (bytes : Bytes) : Option Nat :=
  match Request.read (.ofBytes bytes) with
  | (.ok (some (_, .backup _ length)), rest) =>
    if length.toNat ≤ rest.bytes.length then
      some (bytes.length - rest.bytes.length + length.toNat)
    else none
  | (.ok (some _), rest) => some (bytes.length - rest.bytes.length)
  | _ => none

/-- The length of the first requests in `bytes`, at most `count` of them, that are there in
whole. -/
def requestsLength : (count : Nat) → Bytes → Nat
  | 0, _ => 0
  | count + 1, bytes =>
    match requestLength? bytes with
    | some length => length + requestsLength count (bytes.drop length)
    | none => 0

/-- A session whose peer may send more. -/
structure Live where
  /-- What has come of a request that is not there in whole. -/
  begun : Bytes := []
  /-- Whether a failed transfer has ended the session. -/
  ended : Bool := false
  deriving DecidableEq, Repr

/-- What a piece of input brings about. -/
structure Progress (σ : Type) where
  written : Bytes
  session : Live
  state : σ

namespace Live

/-- Serves the input in `bytes` as if nothing came after it. -/
def serve {σ : Type} (b : Backend σ) (chunk : Nat) (state : σ) (bytes begun : Bytes) :
    Progress σ :=
  let t := converse b chunk state (.ofBytes bytes) {}
  let ended := match t.ending with
    | .ok () => false
    | .error _ => true
  { written := t.written, session := { begun, ended }, state := t.state }

/-- Takes what the peer has sent. -/
def receive {σ : Type} (l : Live) (b : Backend σ) (chunk : Nat) (state : σ) (bytes : Bytes) :
    Progress σ :=
  if l.ended then { written := [], session := l, state }
  else
    let all := l.begun ++ bytes
    let whole := requestsLength all.length all
    serve b chunk state (all.take whole) (all.drop whole)

/-- Takes note that the peer will send no more. -/
def close {σ : Type} (l : Live) (b : Backend σ) (chunk : Nat) (state : σ) : Progress σ :=
  if l.ended then { written := [], session := l, state }
  else
    let last := serve b chunk state l.begun []
    { last with session := { last.session with ended := true } }

end Live

end UserVault.Session

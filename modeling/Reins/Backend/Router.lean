import Reins.Lib.Schema

/-!
# The router (`backend/src/router.ts`)

`handle` answers a request from the first route that matches it. `URLPattern` is the runtime's: `exec` says which
groups of the path a pattern finds. A promise that rejects is none.
-/

namespace Reins.Router

open Utf Schema

variable {P U R X : Type}

/-! ## `decodeURIComponent` -/

def hexVal (u : UInt16) : Option UInt8 :=
  if 0x30 ≤ u && u ≤ 0x39 then some (u - 0x30).toUInt8
  else if 0x41 ≤ u && u ≤ 0x46 then some (u - 0x37).toUInt8
  else if 0x61 ≤ u && u ≤ 0x66 then some (u - 0x57).toUInt8
  else none

/-- `bytes`: those of the escapes in front, which have to spell scalar values before anything else comes. -/
def decodeFrom (bytes : List UInt8) : JsString → Option JsString
  | [] => (decodeFatal bytes).map (·.flatMap units)
  | 0x25 :: a :: b :: rest => do
    let high ← hexVal a
    let low ← hexVal b
    decodeFrom (bytes ++ [high * 16 + low]) rest
  | u :: rest => do
    guard (u ≠ 0x25)
    let decoded ← decodeFatal bytes
    let more ← decodeFrom [] rest
    some (decoded.flatMap units ++ u :: more)

/-- None is its `URIError`. -/
def decodeURIComponent (s : JsString) : Option JsString := decodeFrom [] s

/-! ## Routes -/

/-- What a middleware or a handler may throw. -/
inductive Thrown
  | httpError (status : Nat) (message : JsString)
  | requestRefused (message : JsString)
  | nodeUnavailable (message : JsString)
  /-- anything else, and its `message` if it has one -/
  | other (message : Option JsString)
  /-- `null` and `undefined`, which have no members -/
  | nullish

/-- `more`: the request, the models and the server. -/
structure RouteContext (X : Type) where
  params : List (JsString × JsString)
  more : X

structure Route (P R X : Type) where
  method : JsString
  pattern : P
  handler : RouteContext X → Except Thrown (Option R)
  middlewares : List (RouteContext X → Except Thrown (RouteContext X))

def Route.run (route : Route P R X) (ctx : RouteContext X) : Except Thrown (Option R) := do
  let ctx ← route.middlewares.foldlM (fun ctx mw => mw ctx) ctx
  route.handler ctx

inductive Answer (R : Type)
  | response (r : R)
  /-- `Response.json({ error }, { status })` -/
  | error (status : Nat) (error : JsString)
  | upgraded
  | unmatched

/-- The statuses a response with a body may have: for others the constructor throws. -/
def takesBody (status : Nat) : Bool := 200 ≤ status && status ≤ 599 && ¬status ∈ [204, 205, 304]

def json (status : Nat) (error : JsString) : Option (Answer R) :=
  if takesBody status then some (.error status error) else none

def caught : Thrown → Option (Answer R)
  | .httpError status message => json status message
  | .requestRefused message => json 400 message
  | .nodeUnavailable message => json 503 message
  | .other message => json 500 (message.getD (js "Internal server error"))
  | .nullish => none

/-- The parameters that took part in the match, decoded. -/
def paramsOf (groups : List (JsString × Option JsString)) : Option (List (JsString × JsString)) :=
  (groups.filterMap fun g => g.2.map fun value => (g.1, value)).mapM fun (key, value) =>
    (decodeURIComponent value).map fun value => (key, value)

variable (exec : P → U → Option (List (JsString × Option JsString)))

def handle (more : X) (method : JsString) (url : U) : List (Route P R X) → Option (Answer R)
  | [] => some .unmatched
  | route :: routes =>
    if route.method ≠ method then handle more method url routes
    else match exec route.pattern url with
      | none => handle more method url routes
      | some groups => do
        -- in front of the `try`
        let params ← paramsOf groups
        match route.run ⟨params, more⟩ with
        | .ok (some response) => some (.response response)
        | .ok none => some .upgraded
        | .error thrown => caught thrown

/-! ## When it answers -/

end Reins.Router

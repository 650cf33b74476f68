import CloudArchive.GoStrings

/-!
# Webserver — the customer a bearer token admits

`loginPostPage` signs `jwt.MapClaims{"CustomerNumber": cid}` with the server's HMAC secret.
`encoding/json` writes the `uint64` as its exact decimal digits; `jwt.Parse` decodes the claims
into a `map[string]interface{}`, where every JSON number becomes a `float64`, the nearest one
(`strconv.ParseFloat`, ties to even); `decodeJWTToken` converts that `float64` back with
`uint64(custNum)`. Every authenticated handler parses its URL variables, compares the URL's
`{custid}` with that number, and only then goes on to the `ShardHandler`.

A token is modelled as its signing method, its claims and its signature (the base64 and JSON
framing are lossless); the HMAC is a parameter. `float64` values here are integers, held as
`Nat`: the rounding of an integer is exact in `Nat`. Go leaves the conversion of a `float64` at
or above `2^64` to `uint64` to the platform, so its result is a parameter `ovf` too.
-/

namespace CloudArchive.Webserver

open CloudArchive

/-! ## `float64` -/

/-- The number of bits of `n` (`fuel` bounds the recursion; `n` itself is enough). -/
def bitLen : Nat → Nat → Nat
  | 0, _ => 0
  | fuel + 1, n => if n = 0 then 0 else bitLen fuel (n / 2) + 1

/-- The `float64` nearest to the integer `n`, ties to even: keep the top 53 bits, round on
the rest. This is `strconv.ParseFloat` of `n`'s decimal digits, for `n < 2^1024`. -/
def roundFloat64 (n : Nat) : Nat :=
  let e := bitLen n n - 53
  let q := n / 2 ^ e
  let r := n % 2 ^ e
  (if 2 * r > 2 ^ e ∨ (2 * r = 2 ^ e ∧ q % 2 = 1) then q + 1 else q) * 2 ^ e

/-- `uint64(f)` of an integral `float64`: exact below `2^64`, the platform's `ovf` above. -/
def float64ToUint64 (ovf : UInt64) (f : Nat) : UInt64 :=
  if f < 2 ^ 64 then UInt64.ofNat f else ovf

theorem bitLen_le {fuel n k : Nat} (h : n < 2 ^ k) : bitLen fuel n ≤ k := by
  induction fuel generalizing n k with
  | zero => exact Nat.zero_le _
  | succ fuel ih =>
    unfold bitLen
    split
    · exact Nat.zero_le _
    · obtain _ | k := k
      · omega
      · have := @ih (n / 2) k (by rw [Nat.pow_succ] at h; omega)
        omega

/-- Below `2^53` every integer is a `float64`. -/
theorem roundFloat64_of_lt {n : Nat} (h : n < 2 ^ 53) : roundFloat64 n = n := by
  have he : bitLen n n - 53 = 0 := by have := @bitLen_le n n 53 h; omega
  simp [roundFloat64, he, Nat.mod_one]

/-! ## Tokens -/

/-- A JSON value of the claims. -/
inductive JsonValue
  /-- a number literal of a non-negative integer, as `encoding/json` writes a `uint64` -/
  | number (n : Nat)
  | string (s : String)
  | bool (b : Bool)
  | null

/-- A JWT: its `alg`, its claims and its signature. -/
structure Token where
  alg : String
  claims : List (String × JsonValue)
  sig : List UInt8

/-- The HMAC of a signing method over the claims, under a key. -/
abbrev Mac := String → List UInt8 → List (String × JsonValue) → List UInt8

/-- `loginPostPage`'s token for customer `cid`: `HS256` over `{"CustomerNumber": cid}`. -/
def loginToken (mac : Mac) (secret : List UInt8) (cid : UInt64) : Token :=
  let claims := [("CustomerNumber", JsonValue.number cid.toNat)]
  ⟨"HS256", claims, mac "HS256" secret claims⟩

/-- The authentication errors. -/
inductive AuthErr
  /-- `ErrMissingJWTToken` -/
  | missingToken
  /-- the key function's `Unexpected signing method` -/
  | signingMethod
  /-- `jwt.ErrSignatureInvalid` -/
  | signatureInvalid
  /-- `Customer number could not be converted to a float64` (a missing claim ends here too:
  its message is overwritten) -/
  | notFloat

/-- `decodeJWTToken`: accept an HMAC method whose signature checks, read `CustomerNumber`
as a `float64`, and convert it with `uint64(custNum)`. -/
def decodeJWTToken (mac : Mac) (secret : List UInt8) (ovf : UInt64) (tok : Token) :
    Except AuthErr UInt64 :=
  if tok.alg ∉ ["HS256", "HS384", "HS512"] then .error .signingMethod
  else if tok.sig ≠ mac tok.alg secret tok.claims then .error .signatureInvalid
  else match tok.claims.lookup "CustomerNumber" with
    | some (.number n) => .ok (float64ToUint64 ovf (roundFloat64 n))
    | _ => .error .notFloat

/-- The customer number a login token for `cid` decodes to. -/
theorem decodeJWTToken_loginToken (mac : Mac) (secret : List UInt8) (ovf : UInt64) (cid : UInt64) :
    decodeJWTToken mac secret ovf (loginToken mac secret cid) =
      .ok (float64ToUint64 ovf (roundFloat64 cid.toNat)) := by
  simp [decodeJWTToken, loginToken]

/-! ## The authenticated handlers -/

/-- An HTTP request: its `Authorization` bearer token, `mux.Vars`, and the outcome of the
handler-specific steps that read the body or the connection. -/
structure Request where
  bearer : Option Token
  vars : List (String × String)
  /-- `getObject` decodes the JSON body -/
  bodyOk : Bool
  /-- the decoded timeframe of `getWellShardsInTimeframe`, in nanoseconds (`0` is Go's zero
  time) -/
  tfStart : Int
  tfEnd : Int
  /-- `newRateTimeoutReader` / `newRateTimeoutWriter` start -/
  streamOk : Bool

/-- The errors a handler reports. -/
inductive WebErr
  /-- `ErrVariableNotFound` -/
  | variableNotFound
  /-- a `strconv.ParseUint` error -/
  | numError
  /-- a `uuid.Parse` error -/
  | uuidError
  /-- `Wrong customer number` -/
  | wrongCustomer
  /-- a `getObject` error -/
  | body
  /-- `Invalid start time … after end time …` -/
  | badTimeframe
  /-- `Start/end times must not be zero` -/
  | zeroTimeframe
  /-- a rate-timeout reader or writer that did not start -/
  | stream
  deriving DecidableEq

/-- What the request gets: `401` from `AuthUser`, `400` (`serverInvalid`), `500`
(`serverFail`), or a call of the `ShardHandler` for customer `cid`. -/
inductive Outcome
  | unauthorized
  | invalid (e : WebErr)
  | fail (e : WebErr)
  | backend (cid : UInt64)
  deriving DecidableEq

/-- The URL variables a handler parses before its customer check. -/
inductive MuxVar
  /-- `getMuxUint64(req, "custid")` -/
  | custid
  /-- `getMuxUUID(req, "uuid")` -/
  | uuid
  /-- `getMuxString(req, "well")` -/
  | well
  /-- `getMuxString(req, "shardid")` -/
  | shardid

/-- `xvalues`, as `xtob` reads it: the value of a hexadecimal digit byte. -/
def hexVal (b : UInt8) : Option Nat :=
  if 48 ≤ b ∧ b ≤ 57 then some (b.toNat - 48)
  else if 97 ≤ b ∧ b ≤ 102 then some (b.toNat - 87)
  else if 65 ≤ b ∧ b ≤ 70 then some (b.toNat - 55)
  else none

/-- The big-endian value of hexadecimal digit bytes, which `xtob` reads two at a time. -/
def hexDigits (s : List UInt8) : Option Nat :=
  s.foldlM (fun acc c => (hexVal c).map (acc * 16 + ·)) 0

/-- A byte as `strings.EqualFold` compares it with an ASCII letter: upper case folds to lower. -/
def lowerByte (b : UInt8) : UInt8 := if 65 ≤ b ∧ b ≤ 90 then b + 32 else b

/-- `uuid.Parse`: it switches on `len(s)`, a count of bytes, and reads the bytes at fixed
offsets. `xxxxxxxx-xxxx-xxxx-xxxx-xxxxxxxxxxxx` is 36 bytes; 45 have an `urn:uuid:` prefix in
any case; 38 have one byte on each side (`s = s[1:]`); 32 are hex digits alone. -/
def uuidParse (s : List Char) : Option (BitVec 128) :=
  let dashed (b : List UInt8) : Option (BitVec 128) :=
    if b.get? 8 = some 45 ∧ b.get? 13 = some 45 ∧ b.get? 18 = some 45 ∧ b.get? 23 = some 45
    then (hexDigits (b.take 8 ++ (b.drop 9).take 4 ++ (b.drop 14).take 4 ++ (b.drop 19).take 4 ++
      (b.drop 24).take 12)).map (BitVec.ofNat 128)
    else none
  let b := goBytes s
  match b.length with
  | 36 => dashed b
  | 45 => if (b.take 9).map lowerByte = goBytes "urn:uuid:".data then dashed (b.drop 9) else none
  | 38 => dashed (b.drop 1)
  | 32 => (hexDigits b).map (BitVec.ofNat 128)
  | _ => none

/-- A name of 38 runes and 39 bytes: one rune, a printed GUID, then `é`. `uuid.Parse` counts the
bytes and refuses it. -/
example : uuidParse ('x' :: uuidString 5 ++ ['é']) = none := by decide

/-- Parse one URL variable; `custid` gives the URL's customer. -/
def MuxVar.parse (req : Request) : MuxVar → Except WebErr (Option UInt64)
  | .custid =>
    match req.vars.lookup "custid" with
    | none => .error .variableNotFound
    | some v => match parseUint v.data 64 with
      | some n => .ok (some (UInt64.ofNat n))
      | none => .error .numError
  | .uuid =>
    match req.vars.lookup "uuid" with
    | none => .error .variableNotFound
    | some v => if (uuidParse v.data).isSome then .ok none else .error .uuidError
  | .well => if (req.vars.lookup "well").isSome then .ok none else .error .variableNotFound
  | .shardid => if (req.vars.lookup "shardid").isSome then .ok none else .error .variableNotFound

/-- The URL variables, parsed in order; the customer is the first `custid`. -/
def parseVars (req : Request) : List MuxVar → Except WebErr (Option UInt64)
  | [] => .ok none
  | v :: vs =>
    match v.parse req, parseVars req vs with
    | .error e, _ => .error e
    | .ok _, .error e => .error e
    | .ok c, .ok c' => .ok (c.orElse fun _ => c')

/-- The shared shape of the authenticated handlers: parse `vars` (each failure a `400`),
compare the URL's customer with the token's (`400` on a mismatch), run the handler's own
steps `post`, then call the `ShardHandler` for the URL's customer. -/
def authedHandler (vars : List MuxVar) (post : Request → Option Outcome) (req : Request)
    (cust : UInt64) : Outcome :=
  match parseVars req vars with
  | .error e => .invalid e
  | .ok none => .invalid .variableNotFound
  | .ok (some custID) =>
    if custID ≠ cust then .invalid .wrongCustomer
    else (post req).getD (.backend custID)

/-- No own steps before the backend. -/
def noPost (_ : Request) : Option Outcome := none

/-- `getObject` of the body. -/
def bodyPost (req : Request) : Option Outcome := if req.bodyOk then none else some (.fail .body)

/-- A rate-timeout reader or writer on the connection. -/
def streamPost (req : Request) : Option Outcome :=
  if req.streamOk then none else some (.fail .stream)

/-- `getObject` of the timeframe, then its checks. -/
def timeframePost (req : Request) : Option Outcome :=
  if !req.bodyOk then some (.fail .body)
  else if req.tfEnd < req.tfStart then some (.invalid .badTimeframe)
  else if req.tfStart = 0 ∨ req.tfEnd = 0 then some (.invalid .zeroTimeframe)
  else none

/-- `shardPushHandler`. -/
def shardPushHandler := authedHandler [.custid, .uuid, .well, .shardid] streamPost
/-- `shardPullHandler`. -/
def shardPullHandler := authedHandler [.custid, .uuid, .well, .shardid] streamPost
/-- `customerListIndexers`. -/
def customerListIndexers := authedHandler [.custid] noPost
/-- `indexerListWells`. -/
def indexerListWells := authedHandler [.custid, .uuid] noPost
/-- `indexerGetTags`. -/
def indexerGetTags := authedHandler [.custid, .uuid] noPost
/-- `indexerSyncTags`. -/
def indexerSyncTags := authedHandler [.custid, .uuid] bodyPost
/-- `getWellTimeframe`. -/
def getWellTimeframe := authedHandler [.custid, .uuid, .well] noPost
/-- `getWellShardsInTimeframe`. -/
def getWellShardsInTimeframe := authedHandler [.custid, .uuid, .well] timeframePost

/-- `AuthUser` in front of a handler (`authChain.Handler`): no bearer token, or one that does
not decode, is a `401`. -/
def serve (mac : Mac) (secret : List UInt8) (ovf : UInt64) (h : Request → UInt64 → Outcome)
    (req : Request) : Outcome :=
  match req.bearer with
  | none => .unauthorized
  | some tok =>
    match decodeJWTToken mac secret ovf tok with
    | .error _ => .unauthorized
    | .ok cust => h req cust

/-- A request that carries `loginPostPage`'s token for `c` is served as customer
`uint64(float64(c))`. -/
theorem serve_loginToken {mac : Mac} {secret : List UInt8} {ovf : UInt64} {c : UInt64}
    (h : Request → UInt64 → Outcome) {req : Request}
    (hb : req.bearer = some (loginToken mac secret c)) :
    serve mac secret ovf h req = h req (float64ToUint64 ovf (roundFloat64 c.toNat)) := by
  simp [serve, hb, decodeJWTToken_loginToken]

/-- Past its URL variables, a handler reaches the backend iff the URL's customer is the
token's. -/
theorem authedHandler_of_parseVars {vars : List MuxVar} {post : Request → Option Outcome}
    {req : Request} {u : UInt64} (hv : parseVars req vars = .ok (some u)) (cust : UInt64) :
    authedHandler vars post req cust =
      if u = cust then (post req).getD (.backend u) else .invalid .wrongCustomer := by
  unfold authedHandler
  rw [hv]
  by_cases hu : u = cust <;> simp [hu]

/-- `uint64(float64(c))` is `c` below `2^53`. -/
theorem float64ToUint64_roundFloat64_of_lt (ovf : UInt64) {c : UInt64} (hc : c.toNat < 2 ^ 53) :
    float64ToUint64 ovf (roundFloat64 c.toNat) = c := by
  rw [roundFloat64_of_lt hc, float64ToUint64, if_pos (by omega)]
  exact UInt64.toNat.inj (UInt64.toNat_ofNat_of_lt c.toNat_lt_size)

/-- **Below `2^53` the customer check is exact.** A request carrying `loginPostPage`'s token
for customer `c < 2^53`, whose URL variables parse with customer `u`, reaches the handler's
own steps and the `ShardHandler` iff `u = c`, for every authenticated handler. -/
theorem serve_loginToken_of_lt {mac : Mac} {secret : List UInt8} {ovf : UInt64} {c : UInt64}
    (hc : c.toNat < 2 ^ 53) {vars : List MuxVar} {post : Request → Option Outcome}
    {req : Request} {u : UInt64} (hb : req.bearer = some (loginToken mac secret c))
    (hv : parseVars req vars = .ok (some u)) :
    serve mac secret ovf (authedHandler vars post) req =
      if u = c then (post req).getD (.backend u) else .invalid .wrongCustomer := by
  rw [serve_loginToken _ hb, float64ToUint64_roundFloat64_of_lt ovf hc]
  exact authedHandler_of_parseVars hv c

/-- Customer 5 lists its indexers with its own token. -/
theorem customer_five_lists_indexers :
    serve (fun _ _ _ => []) [] 0 customerListIndexers
      ⟨some (loginToken (fun _ _ _ => []) [] 5), [("custid", "5")], true, 0, 0, true⟩ =
      .backend 5 := by
  have hv : parseVars ⟨some (loginToken (fun _ _ _ => []) [] 5), [("custid", "5")], true, 0, 0,
      true⟩ [.custid] = .ok (some 5) := rfl
  exact (serve_loginToken_of_lt (show (5 : UInt64).toNat < 2 ^ 53 by decide) rfl hv).trans rfl

/-- **A customer above `2^53` is served as its neighbour.** `loginPostPage`'s token for
`c = 2^53 + 1` decodes to `2^53`: a push to the customer's own URL is refused with
`Wrong customer number`, and a push to customer `2^53`'s URL reaches the `ShardHandler` as
customer `2^53`. -/
theorem login_above_2pow53_serves_neighbour (mac : Mac) (secret : List UInt8) (ovf : UInt64) :
    let c : UInt64 := 9007199254740993
    let req (u : String) : Request :=
      ⟨some (loginToken mac secret c), [("custid", u), ("uuid", "01234567-89ab-cdef-0123-456789abcdef"),
        ("well", "w"), ("shardid", "769f2")], true, 0, 0, true⟩
    decodeJWTToken mac secret ovf (loginToken mac secret c) = .ok 9007199254740992 ∧
      serve mac secret ovf shardPushHandler (req "9007199254740993") = .invalid .wrongCustomer ∧
      serve mac secret ovf shardPushHandler (req "9007199254740992") = .backend 9007199254740992 := by
  dsimp only
  have hround : float64ToUint64 ovf (roundFloat64 (9007199254740993 : UInt64).toNat) =
    9007199254740992 := rfl
  refine ⟨by rw [decodeJWTToken_loginToken, hround], ?_, ?_⟩ <;>
    rw [serve_loginToken _ rfl, hround] <;> rfl

end CloudArchive.Webserver

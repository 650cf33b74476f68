import CloudArchive.Webserver.Auth
import CloudArchive.Store.Indexes

/-!
# Webserver — the routes a client's requests reach

`Webserver.Init` installs the handlers on a gorilla/mux router (v1.7.3 in `go.mod`), in an
order the source marks as important: `TEST_PATH` with `HandleFunc`, whose pattern is anchored
with `$`, and every other template with `PathPrefix`, each route for one method. The router is
the server's whole handler. `Router.ServeHTTP` redirects to `cleanPath` of a path that differs
from it. Otherwise it takes the first route whose template matches the start of the path and
whose method is the request's, and gives the handler the template's variables. A route that
matches the path under another method only turns the `404` into a `405`.

In a template, `{name}` stands for the pattern `[^/]+` and every other character for itself. In
every template here a variable runs to the next `/` or to the end, so the greedy run of non-`/`
characters is the only one that can match (`matchToks`).

The client (`pkg/client`) builds its URLs with `fmt.Sprintf` from four things:
* the customer number `Login` stored;
* a GUID string;
* the well and shard names;
* or a `ShardID`, whose GUID prints with `uuid.UUID.String` (`PushShardUrl`).

`http.NewRequest` parses the URL, and the router matches `req.URL.Path`: the URL up to its first
`#`, then up to its first `?` (`urlPath`). The percent-decoding of `url.Parse` is left out, and
the arguments here hold no `%`.

* `matchToks_segToks` reads a template on a path of `/`-separated segments, one segment at a
  time. It is what the proofs compute with.
* `Call.serveHTTP_request`: every call reaches the handler that `Init` installs for it, and that
  handler reads the client's own customer number, GUID, well and shard as its variables.
* `Call.respond_backend`: a client logged in as a customer below `2^53` has every data request
  served by the `ShardHandler` as its own customer.
* `respond_backend_decodes`: whatever the method and URL, the `ShardHandler` is only reached
  as the customer of the request's own token.
-/

namespace CloudArchive.Webserver

open CloudArchive CloudArchive.Store

/-! ## Templates -/

/-- A piece of a template's pattern: a character, or a `{name}` variable (`[^/]+`). -/
inductive Tok
  | ch (c : Char)
  | var (name : List Char)
  deriving DecidableEq, Repr

/-- `braceIndices` and `newRouteRegexp`: the pattern of a template, or `none` for unbalanced
braces, an error the route keeps and never matches with. `name` is the reversed name read so
far inside a brace. -/
def tokensFrom : List Char → Option (List Char) → Option (List Tok)
  | [], none => some []
  | [], some _ => none
  | c :: s, none =>
    if c = '{' then tokensFrom s (some [])
    else if c = '}' then none
    else (tokensFrom s none).map (.ch c :: ·)
  | c :: s, some name =>
    if c = '}' then (tokensFrom s none).map (.var name.reverse :: ·)
    else tokensFrom s (some (c :: name))

/-- The pattern of a template. -/
def tokens (tpl : List Char) : Option (List Tok) := tokensFrom tpl none

/-- The match of a pattern at the start of a path: the variables with their values, in the
template's order. A `PathPrefix` pattern may stop anywhere; a `Path` pattern (`anchored`) ends
with `$`. -/
def matchToks (anchored : Bool) : List Tok → List Char → Option (List (List Char × List Char))
  | [], p => if anchored && !p.isEmpty then none else some []
  | .ch _ :: _, [] => none
  | .ch c :: ts, d :: p => if c = d then matchToks anchored ts p else none
  | .var n :: ts, p =>
    let v := p.takeWhile (· != '/')
    if v.isEmpty then none else (matchToks anchored ts (p.drop v.length)).map ((n, v) :: ·)

/-! ## The router -/

/-- The methods of the routes and of the client's requests. -/
inductive Method
  | get
  | post
  deriving DecidableEq, Repr

/-- A route: its template, whether `Path` installed it (`anchored`) rather than `PathPrefix`,
its method (`Methods`) and its handler. -/
structure Route (H : Type) where
  tpl : List Char
  anchored : Bool
  method : Method
  handler : H

/-- The route's variables (`setMatch`), when its template matches the path. -/
def Route.matchPath {H : Type} (r : Route H) (path : List Char) :
    Option (List (String × String)) :=
  (tokens r.tpl).bind fun ts =>
    (matchToks r.anchored ts path).map (·.map fun nv => (String.mk nv.1, String.mk nv.2))

/-- What the router does with a request. -/
inductive Dispatch (H : Type)
  /-- the route's handler, with the route's variables -/
  | serve (h : H) (vars : List (String × String))
  /-- `301 Moved Permanently`, to the clean path -/
  | redirect (path : List Char)
  /-- `405 Method Not Allowed` -/
  | methodNotAllowed
  /-- `404 Not Found` -/
  | notFound
  deriving DecidableEq

/-- `Router.Match` over the routes in order; `mismatch` records a route whose path matched under
another method (`ErrMethodMismatch`). -/
def Router.firstMatch {H : Type} : List (Route H) → Method → List Char → Bool → Dispatch H
  | [], _, _, mismatch => if mismatch then .methodNotAllowed else .notFound
  | r :: rs, m, p, mismatch =>
    match r.matchPath p with
    | none => firstMatch rs m p mismatch
    | some vars => if r.method = m then .serve r.handler vars else firstMatch rs m p true

/-- mux's `cleanPath`: `path.Clean` of the path made rooted, with a trailing `/` kept. -/
def cleanPath (p : List Char) : List Char :=
  if p = [] then ['/'] else
  let p := if p.head? = some '/' then p else '/' :: p
  let np := clean p
  if p.getLast? = some '/' ∧ np ≠ ['/'] then np ++ ['/'] else np

/-- `Router.ServeHTTP`: an unclean path is redirected, a clean one matched. -/
def Router.serveHTTP {H : Type} (routes : List (Route H)) (m : Method) (path : List Char) :
    Dispatch H :=
  if cleanPath path = path then Router.firstMatch routes m path false
  else .redirect (cleanPath path)

/-- The path `url.Parse` reads from the path part of a URL: up to the first `#` (the fragment),
then up to the first `?` (the query). -/
def urlPath (url : List Char) : List Char := (url.takeWhile (· != '#')).takeWhile (· != '?')

/-! ## The routes of `Init` -/

/-- The handlers `Init` installs. -/
inductive Endpoint
  | testHandler
  | authTestHandler
  | loginPostPage
  | indexerGetTags
  | indexerSyncTags
  | shardPushHandler
  | shardPullHandler
  | getWellTimeframe
  | getWellShardsInTimeframe
  | indexerListWells
  | customerListIndexers
  deriving DecidableEq, Repr

/-- `LOGIN_PATH` -/
def loginPath : List Char := "/api/login".data
/-- `TEST_PATH` -/
def testPath : List Char := "/api/test".data
/-- `AUTH_TEST_PATH` -/
def authTestPath : List Char := "/api/testauth".data
/-- `SHARD_PATH` -/
def shardPath : List Char := "/api/shard/{custid}/{uuid}/{well}/{shardid}".data
/-- `CUST_PATH` -/
def custPath : List Char := "/api/shard/{custid}".data
/-- `INDEXER_PATH` -/
def indexerPath : List Char := "/api/shard/{custid}/{uuid}".data
/-- `WELL_PATH` -/
def wellPath : List Char := "/api/shard/{custid}/{uuid}/{well}".data
/-- `TAG_PATH` -/
def tagPath : List Char := "/api/tags/{custid}/{uuid}".data

/-- The routes `Init` installs, in its order. -/
def routes : List (Route Endpoint) :=
  [⟨testPath, true, .get, .testHandler⟩,
   ⟨authTestPath, false, .get, .authTestHandler⟩,
   ⟨loginPath, false, .post, .loginPostPage⟩,
   ⟨tagPath, false, .get, .indexerGetTags⟩,
   ⟨tagPath, false, .post, .indexerSyncTags⟩,
   ⟨shardPath, false, .post, .shardPushHandler⟩,
   ⟨shardPath, false, .get, .shardPullHandler⟩,
   ⟨wellPath, false, .get, .getWellTimeframe⟩,
   ⟨wellPath, false, .post, .getWellShardsInTimeframe⟩,
   ⟨indexerPath, false, .get, .indexerListWells⟩,
   ⟨custPath, false, .get, .customerListIndexers⟩]

/-- The handler behind `authChain` (`AuthUser`, then the handler) of each endpoint; the test
and login endpoints have none here. -/
def Endpoint.handler : Endpoint → Option (Request → UInt64 → Outcome)
  | .indexerGetTags => some Webserver.indexerGetTags
  | .indexerSyncTags => some Webserver.indexerSyncTags
  | .shardPushHandler => some Webserver.shardPushHandler
  | .shardPullHandler => some Webserver.shardPullHandler
  | .getWellTimeframe => some Webserver.getWellTimeframe
  | .getWellShardsInTimeframe => some Webserver.getWellShardsInTimeframe
  | .indexerListWells => some Webserver.indexerListWells
  | .customerListIndexers => some Webserver.customerListIndexers
  | .testHandler | .authTestHandler | .loginPostPage => none

/-- The server's answer to a request for the URL path `url`: the router's choice, then for an
endpoint behind `authChain`, `AuthUser` and the handler on the request with the route's
variables. -/
def respond (mac : Mac) (secret : List UInt8) (ovf : UInt64) (m : Method) (url : List Char)
    (req : Request) : Option Outcome :=
  match Router.serveHTTP routes m (urlPath url) with
  | .serve e vars => e.handler.map fun h => serve mac secret ovf h { req with vars := vars }
  | _ => none

/-! ## The client's requests -/

/-- `client.ShardID`. -/
structure ShardID where
  indexer : BitVec 128
  well : List Char
  shard : List Char

/-- `PushShardUrl`: `PUSH_SHARD_URL` with the customer, the GUID, the well and the shard. -/
def ShardID.pushShardUrl (sid : ShardID) (custID : UInt64) : List Char :=
  "/api/shard/".data ++ decimal custID.toNat ++ '/' :: uuidString sid.indexer ++ '/' :: sid.well ++
    '/' :: sid.shard

/-- `LOGIN_URL` -/
def loginUrl : List Char := "/api/login".data
/-- `TEST_URL` -/
def testUrl : List Char := "/api/test".data
/-- `TEST_AUTH_URL` -/
def testAuthUrl : List Char := "/api/testauth".data

/-- The calls of `client.Client` that send a request, with their arguments. -/
inductive Call
  | test
  | testLogin
  | login
  | pullTags (guid : List Char)
  | syncTags (guid : List Char)
  | listIndexers
  | listIndexerWells (guid : List Char)
  | getWellTimeframe (guid well : List Char)
  | getWellShardsInTimeframe (guid well : List Char)
  | pushShard (sid : ShardID)
  | pullShard (sid : ShardID)

/-- The method and URL path of each call's request, for the customer `custID` that `Login`
stored. -/
def Call.request (custID : UInt64) : Call → Method × List Char
  | .test => (.get, testUrl)
  | .testLogin => (.get, testAuthUrl)
  | .login => (.post, loginUrl)
  | .pullTags guid => (.get, "/api/tags/".data ++ decimal custID.toNat ++ '/' :: guid)
  | .syncTags guid => (.post, "/api/tags/".data ++ decimal custID.toNat ++ '/' :: guid)
  | .listIndexers => (.get, "/api/shard/".data ++ decimal custID.toNat)
  | .listIndexerWells guid => (.get, "/api/shard/".data ++ decimal custID.toNat ++ '/' :: guid)
  | .getWellTimeframe guid well =>
    (.get, "/api/shard/".data ++ decimal custID.toNat ++ '/' :: guid ++ '/' :: well)
  | .getWellShardsInTimeframe guid well =>
    (.post, "/api/shard/".data ++ decimal custID.toNat ++ '/' :: guid ++ '/' :: well)
  | .pushShard sid => (.post, sid.pushShardUrl custID)
  | .pullShard sid => (.get, sid.pushShardUrl custID)

/-- The handler each call is written for. -/
def Call.endpoint : Call → Endpoint
  | .test => .testHandler
  | .testLogin => .authTestHandler
  | .login => .loginPostPage
  | .pullTags _ => .indexerGetTags
  | .syncTags _ => .indexerSyncTags
  | .listIndexers => .customerListIndexers
  | .listIndexerWells _ => .indexerListWells
  | .getWellTimeframe _ _ => .getWellTimeframe
  | .getWellShardsInTimeframe _ _ => .getWellShardsInTimeframe
  | .pushShard _ => .shardPushHandler
  | .pullShard _ => .shardPullHandler

/-- The variables the call means its handler to read: the customer in decimal, and the GUID,
well and shard as the call has them. -/
def Call.vars (custID : UInt64) : Call → List (String × String)
  | .test | .testLogin | .login => []
  | .pullTags g | .syncTags g | .listIndexerWells g =>
    [("custid", ⟨decimal custID.toNat⟩), ("uuid", ⟨g⟩)]
  | .listIndexers => [("custid", ⟨decimal custID.toNat⟩)]
  | .getWellTimeframe g w | .getWellShardsInTimeframe g w =>
    [("custid", ⟨decimal custID.toNat⟩), ("uuid", ⟨g⟩), ("well", ⟨w⟩)]
  | .pushShard sid | .pullShard sid =>
    [("custid", ⟨decimal custID.toNat⟩), ("uuid", ⟨uuidString sid.indexer⟩),
      ("well", ⟨sid.well⟩), ("shardid", ⟨sid.shard⟩)]

/-- A character `url.Parse` keeps in a path as it is: no query or fragment mark, no escape, no
control character (which it refuses). -/
def urlSafe (ch : Char) : Bool :=
  ch != '?' && ch != '#' && ch != '%' && 0x20 ≤ ch.toNat && ch.toNat != 0x7f

/-- A path segment that reaches the router as the client wrote it: `Clean` keeps it, and
`url.Parse` cuts nothing at it and decodes nothing in it. -/
def Plain (w : List Char) : Prop := IsElem w ∧ w.all urlSafe

instance : DecidablePred Plain := fun _ => inferInstanceAs (Decidable (_ ∧ _))

/-- The call's own string arguments are plain segments. -/
def Call.PlainArgs : Call → Prop
  | .pullTags g | .syncTags g | .listIndexerWells g => Plain g
  | .getWellTimeframe g w | .getWellShardsInTimeframe g w => Plain g ∧ Plain w
  | .pushShard sid | .pullShard sid => Plain sid.well ∧ Plain sid.shard
  | .test | .testLogin | .login | .listIndexers => True

instance : DecidablePred Call.PlainArgs
  | .pullTags g | .syncTags g | .listIndexerWells g => inferInstanceAs (Decidable (Plain g))
  | .getWellTimeframe g w | .getWellShardsInTimeframe g w =>
    inferInstanceAs (Decidable (Plain g ∧ Plain w))
  | .pushShard sid | .pullShard sid => inferInstanceAs (Decidable (Plain sid.well ∧ Plain sid.shard))
  | .test | .testLogin | .login | .listIndexers => isTrue trivial

/-- The GUID a call sends: its string argument, or its `ShardID`'s, printed. -/
def Call.guid? : Call → Option (List Char)
  | .pullTags g | .syncTags g | .listIndexerWells g => some g
  | .getWellTimeframe g _ | .getWellShardsInTimeframe g _ => some g
  | .pushShard sid | .pullShard sid => some (uuidString sid.indexer)
  | .test | .testLogin | .login | .listIndexers => none

/-- A request whose body, stream and timeframe pass every handler's own steps. -/
def Request.Sound (req : Request) : Prop :=
  req.bodyOk = true ∧ req.streamOk = true ∧ req.tfStart ≤ req.tfEnd ∧ req.tfStart ≠ 0 ∧
    req.tfEnd ≠ 0

instance : DecidablePred Request.Sound := fun _ => inferInstanceAs (Decidable (_ ∧ _ ∧ _ ∧ _ ∧ _))

/-! ## Templates segment by segment -/

/-- A literal segment of a template. -/
structure Lit where
  s : List Char
  noSep : '/' ∉ s

/-- A segment of a template: a literal, or a variable. -/
inductive Seg
  | lit (l : Lit)
  | var (name : List Char)

/-- The pattern of one segment. -/
def Seg.toks : Seg → List Tok
  | .lit l => l.s.map .ch
  | .var n => [.var n]

/-- The pattern of the template `/seg/seg/…`. -/
def segToks (segs : List Seg) : List Tok := segs.flatMap fun g => .ch '/' :: g.toks

/-- The path `/w/w/…`. -/
def slashed (ws : List (List Char)) : List Char := ws.flatMap ('/' :: ·)

/-- Matching one segment at a time: a variable takes a whole segment, and a literal must equal
its segment, except that the last literal of a `PathPrefix` template need only begin it. -/
def segMatch (anchored : Bool) : List Seg → List (List Char) →
    Option (List (List Char × List Char))
  | [], ws => if anchored && !ws.isEmpty then none else some []
  | _ :: _, [] => none
  | .lit l :: ts, w :: ws =>
    if ts.isEmpty && !anchored then (if l.s.isPrefixOf w then some [] else none)
    else if l.s = w then segMatch anchored ts ws else none
  | .var n :: ts, w :: ws => (segMatch anchored ts ws).map ((n, w) :: ·)

@[simp] theorem slashed_nil : slashed [] = [] := rfl

@[simp] theorem slashed_cons (w : List Char) (ws : List (List Char)) :
    slashed (w :: ws) = '/' :: (w ++ slashed ws) := rfl

@[simp] theorem segToks_nil : segToks [] = [] := rfl

@[simp] theorem segToks_cons (g : Seg) (gs : List Seg) :
    segToks (g :: gs) = .ch '/' :: (g.toks ++ segToks gs) := rfl

@[simp] theorem matchToks_ch_cons (a : Bool) (c : Char) (ts : List Tok) (p : List Char) :
    matchToks a (.ch c :: ts) (c :: p) = matchToks a ts p := by
  simp [matchToks]

/-- A run of literal characters matches exactly where it begins the path. -/
theorem matchToks_map_ch (a : Bool) (rest : List Tok) :
    ∀ (s p : List Char), matchToks a (s.map .ch ++ rest) p =
      if s.isPrefixOf p then matchToks a rest (p.drop s.length) else none
  | [], p => by simp
  | _ :: _, [] => by simp [matchToks]
  | c :: s, d :: p => by
    by_cases hc : c = d
    · subst hc
      simp [matchToks_map_ch a rest s p]
    · simp [matchToks, hc]

/-- A variable takes a segment that runs up to a `/` or to the end. -/
theorem matchToks_var (a : Bool) (n : List Char) (ts : List Tok) {w rest : List Char}
    (hw : w ≠ [] ∧ '/' ∉ w) (hr : rest.takeWhile (· != '/') = []) :
    matchToks a (.var n :: ts) (w ++ rest) = (matchToks a ts rest).map ((n, w) :: ·) := by
  have hv : (w ++ rest).takeWhile (· != '/') = w := by
    rw [List.takeWhile_append_of_pos (fun c hc => by simpa using ne_of_mem_of_not_mem hc hw.2),
      hr, List.append_nil]
  simp [matchToks, hv, hw.1]

/-- What a literal without `/` begins in `w ++ /…` it begins in `w`. -/
theorem isPrefixOf_append_slashed {s w : List Char} (hs : '/' ∉ s) (ws : List (List Char)) :
    s.isPrefixOf (w ++ slashed ws) = s.isPrefixOf w := by
  rcases ws with _ | ⟨w', ws⟩
  · simp
  apply Bool.eq_iff_iff.mpr
  simp only [List.isPrefixOf_iff_prefix, slashed_cons]
  refine ⟨fun h => List.prefix_of_prefix_length_le h (List.prefix_append _ _) ?_,
    fun h => h.trans (List.prefix_append _ _)⟩
  by_contra hlt
  have hget := h.getElem (n := w.length) (by omega)
  rw [List.getElem_append_right (by omega)] at hget
  simp only [Nat.sub_self, List.getElem_cons_zero] at hget
  exact hs (hget ▸ List.getElem_mem _)

/-- **A template read one segment at a time.** On a path of segments without `/`, the pattern
of `/seg/seg/…` matches as `segMatch` says. -/
theorem matchToks_segToks (a : Bool) {ws : List (List Char)} (hw : ∀ w ∈ ws, w ≠ [] ∧ '/' ∉ w) :
    ∀ segs, matchToks a (segToks segs) (slashed ws) = segMatch a segs ws := by
  intro segs
  induction segs generalizing ws with
  | nil => cases ws <;> simp [matchToks, segMatch]
  | cons g ts ih =>
    rcases ws with _ | ⟨w, ws⟩
    · simp [matchToks, segMatch]
    have hw' : ∀ v ∈ ws, v ≠ [] ∧ '/' ∉ v := fun v hv => hw v (.tail _ hv)
    rw [segToks_cons, slashed_cons, matchToks_ch_cons]
    cases g with
    | var n =>
      have hrest : (slashed ws).takeWhile (· != '/') = [] := by cases ws <;> simp
      rw [Seg.toks, List.singleton_append, matchToks_var a n _ (hw w (.head _)) hrest, ih hw']
      rfl
    | lit l =>
      rw [Seg.toks, matchToks_map_ch, isPrefixOf_append_slashed l.noSep]
      simp only [segMatch]
      cases hpre : l.s.isPrefixOf w
      · have hne : l.s ≠ w := fun e => by
          rw [e, Bool.eq_false_iff] at hpre
          exact hpre (List.isPrefixOf_iff_prefix.mpr (List.prefix_refl w))
        simp [hne]
      obtain ⟨t, rfl⟩ := List.isPrefixOf_iff_prefix.mp hpre
      rw [List.append_assoc, List.drop_left]
      rcases t with _ | ⟨c, t⟩
      · rw [List.nil_append, ih hw']
        cases ts <;> cases a <;> simp [segMatch]
      · have hc : c ≠ '/' := fun e => (hw _ (.head _)).2 (by simp [e])
        have hne : l.s ≠ l.s ++ c :: t := by simp
        rcases ts with _ | ⟨g, ts⟩
        · cases a <;> simp [matchToks, hne]
        · simp [matchToks, hne, Ne.symm hc]

/-! ## The templates of `Init` -/

theorem tokens_testPath : tokens testPath =
    some (segToks [.lit ⟨"api".data, by decide⟩, .lit ⟨"test".data, by decide⟩]) := rfl

theorem tokens_authTestPath : tokens authTestPath =
    some (segToks [.lit ⟨"api".data, by decide⟩, .lit ⟨"testauth".data, by decide⟩]) := rfl

theorem tokens_loginPath : tokens loginPath =
    some (segToks [.lit ⟨"api".data, by decide⟩, .lit ⟨"login".data, by decide⟩]) := rfl

theorem tokens_tagPath : tokens tagPath =
    some (segToks [.lit ⟨"api".data, by decide⟩, .lit ⟨"tags".data, by decide⟩,
      .var "custid".data, .var "uuid".data]) := rfl

theorem tokens_shardPath : tokens shardPath =
    some (segToks [.lit ⟨"api".data, by decide⟩, .lit ⟨"shard".data, by decide⟩,
      .var "custid".data, .var "uuid".data, .var "well".data, .var "shardid".data]) := rfl

theorem tokens_wellPath : tokens wellPath =
    some (segToks [.lit ⟨"api".data, by decide⟩, .lit ⟨"shard".data, by decide⟩,
      .var "custid".data, .var "uuid".data, .var "well".data]) := rfl

theorem tokens_indexerPath : tokens indexerPath =
    some (segToks [.lit ⟨"api".data, by decide⟩, .lit ⟨"shard".data, by decide⟩,
      .var "custid".data, .var "uuid".data]) := rfl

theorem tokens_custPath : tokens custPath =
    some (segToks [.lit ⟨"api".data, by decide⟩, .lit ⟨"shard".data, by decide⟩,
      .var "custid".data]) := rfl

/-! ## The client's paths reach the router as they are -/

/-- The segments of the path of a call's request. -/
def Call.segments (custID : UInt64) : Call → List (List Char)
  | .test => ["api".data, "test".data]
  | .testLogin => ["api".data, "testauth".data]
  | .login => ["api".data, "login".data]
  | .pullTags g | .syncTags g => ["api".data, "tags".data, decimal custID.toNat, g]
  | .listIndexers => ["api".data, "shard".data, decimal custID.toNat]
  | .listIndexerWells g => ["api".data, "shard".data, decimal custID.toNat, g]
  | .getWellTimeframe g w | .getWellShardsInTimeframe g w =>
    ["api".data, "shard".data, decimal custID.toNat, g, w]
  | .pushShard sid | .pullShard sid =>
    ["api".data, "shard".data, decimal custID.toNat, uuidString sid.indexer, sid.well, sid.shard]

theorem Call.request_path (c : UInt64) (call : Call) :
    (call.request c).2 = slashed (call.segments c) := by
  cases call <;> simp [Call.request, Call.segments, ShardID.pushShardUrl, testUrl, testAuthUrl,
    loginUrl]

theorem urlSafe_of_isDigit {ch : Char} (h : ch.isDigit) : urlSafe ch := by
  simp only [Char.isDigit, Bool.and_eq_true, decide_eq_true_eq, ge_iff_le] at h
  have h48 : 48 ≤ ch.toNat := UInt32.le_toNat_of_le (by decide) h.1
  have h57 : ch.toNat ≤ 57 := UInt32.toNat_le_of_le (by decide) h.2
  have hne : ∀ d : Char, d.toNat < 48 ∨ 57 < d.toNat → ch ≠ d := fun d hd e => by subst e; omega
  simp only [urlSafe, bne_iff_ne, ne_eq, Bool.and_eq_true, decide_eq_true_eq]
  exact ⟨⟨⟨⟨hne '?' (by decide), hne '#' (by decide)⟩, hne '%' (by decide)⟩, by omega⟩, by omega⟩

theorem plain_decimal (n : Nat) : Plain (decimal n) :=
  ⟨isElem_decimal n, List.all_eq_true.mpr fun _ h => urlSafe_of_isDigit ((decimal_digits n).2.1 _ h).1⟩

/-- A printed GUID is a plain segment: a path element of URL-safe runes. -/
theorem plain_uuidString (u : BitVec 128) : Plain (uuidString u) := by
  have hhex : ∀ n < 16, urlSafe (hexDigit n) := by decide
  refine ⟨isElem_uuidString u, List.all_eq_true.mpr fun ch h => ?_⟩
  rcases mem_uuidString h with rfl | ⟨n, hn, rfl⟩
  · decide
  · exact hhex n hn

/-- Under `PlainArgs`, every segment of a call's path is plain. -/
theorem Call.segments_plain (c : UInt64) {call : Call} (hp : call.PlainArgs) :
    ∀ w ∈ call.segments c, Plain w := by
  have hapi : Plain "api".data := by decide
  have htags : Plain "tags".data := by decide
  have hshard : Plain "shard".data := by decide
  have hd := plain_decimal c.toNat
  cases call <;> simp only [Call.segments, Call.PlainArgs, List.forall_mem_cons,
    List.not_mem_nil, false_imp_iff, imp_true_iff, and_true] at hp ⊢
  all_goals first
    | decide
    | exact ⟨hapi, htags, hd, hp⟩
    | exact ⟨hapi, hshard, hd⟩
    | exact ⟨hapi, hshard, hd, hp⟩
    | exact ⟨hapi, hshard, hd, hp.1, hp.2⟩
    | exact ⟨hapi, hshard, hd, plain_uuidString _, hp.1, hp.2⟩

theorem slashed_eq_cons_intercalate : ∀ {ws : List (List Char)}, ws ≠ [] →
    slashed ws = '/' :: ['/'].intercalate ws
  | [w], _ => by simp [List.intercalate]
  | w :: w' :: ws, _ => by
    rw [slashed_cons, slashed_eq_cons_intercalate (List.cons_ne_nil w' ws), intercalate_cons_cons]

/-- A rooted path of plain elements is one `Clean` prints. -/
theorem proper_slashed {ws : List (List Char)} (hne : ws ≠ []) (h : ∀ w ∈ ws, IsElem w) :
    Proper (slashed ws) := by
  have hn : NormalStack true ws.reverse :=
    ⟨ws.reverse, 0, by simp, fun w hw => h w (List.mem_reverse.mp hw), fun _ => rfl⟩
  refine ⟨true, ws.reverse, hn, by simpa using hne, ?_⟩
  rw [render_eq hn (by simpa using hne), slashed_eq_cons_intercalate hne]
  simp

/-- mux's `cleanPath` keeps a rooted path of plain elements. -/
theorem cleanPath_slashed {ws : List (List Char)} (hne : ws ≠ []) (h : ∀ w ∈ ws, IsElem w) :
    cleanPath (slashed ws) = slashed ws := by
  have hlast : (slashed ws).getLast? ≠ some '/' := by
    have hw := h _ (List.getLast_mem hne)
    rw [← List.dropLast_append_getLast hne]
    simp only [slashed, List.flatMap_append, List.flatMap_cons, List.flatMap_nil, List.append_nil]
    rw [List.getLast?_append_of_ne_nil _ (List.cons_ne_nil _ _), List.getLast?_cons,
      List.getLast?_eq_getLast _ hw.1]
    simp only [Option.getD_some, ne_eq, Option.some.injEq]
    exact fun e => hw.2.1 (e ▸ List.getLast_mem hw.1)
  have hne' : slashed ws ≠ [] := by rw [slashed_eq_cons_intercalate hne]; exact List.cons_ne_nil _ _
  have hhead : (slashed ws).head? = some '/' := by rw [slashed_eq_cons_intercalate hne]; rfl
  unfold cleanPath
  simp only [hne', hhead, if_false, if_true, (proper_slashed hne h).clean_eq, hlast, false_and]

/-- `url.Parse` cuts nothing off a path of plain elements. -/
theorem urlPath_slashed {ws : List (List Char)} (h : ∀ w ∈ ws, w.all urlSafe) :
    urlPath (slashed ws) = slashed ws := by
  have hc : ∀ ch ∈ slashed ws, ch = '/' ∨ urlSafe ch := by
    intro ch hch
    simp only [slashed, List.mem_flatMap, List.mem_cons] at hch
    obtain ⟨w, hw, rfl | hm⟩ := hch
    · exact .inl rfl
    · exact .inr (List.all_eq_true.mp (h w hw) ch hm)
  have h1 : (slashed ws).takeWhile (· != '#') = slashed ws := by
    refine List.takeWhile_eq_self_iff.mpr fun ch hm => ?_
    rcases hc ch hm with rfl | hs
    · rfl
    · simp only [urlSafe, Bool.and_eq_true] at hs
      exact hs.1.1.1.2
  rw [urlPath, h1]
  refine List.takeWhile_eq_self_iff.mpr fun ch hm => ?_
  rcases hc ch hm with rfl | hs
  · rfl
  · simp only [urlSafe, Bool.and_eq_true] at hs
    exact hs.1.1.1.1

/-! ## Every call reaches its handler -/

/-- The router's match of a call's path: the handler the call is written for, with the call's
variables. The earlier routes fail on a literal or on the number of segments, and the route for
the other method of the same template only records the mismatch. -/
theorem Call.firstMatch_request (c : UInt64) {call : Call} (hp : call.PlainArgs) :
    Router.firstMatch routes (call.request c).1 (slashed (call.segments c)) false =
      .serve call.endpoint (call.vars c) := by
  have hw : ∀ w ∈ call.segments c, w ≠ [] ∧ '/' ∉ w := fun w h =>
    ⟨(Call.segments_plain c hp w h).1.1, (Call.segments_plain c hp w h).1.2.1⟩
  simp only [routes, Router.firstMatch, Route.matchPath, tokens_testPath, tokens_authTestPath,
    tokens_loginPath, tokens_tagPath, tokens_shardPath, tokens_wellPath, tokens_indexerPath,
    tokens_custPath, Option.some_bind, matchToks_segToks _ hw]
  cases call <;> simp [Call.segments, segMatch, Call.request, Call.endpoint, Call.vars]

theorem Call.segments_ne_nil (c : UInt64) (call : Call) : call.segments c ≠ [] := by
  cases call <;> simp [Call.segments]

/-- **The client and the router agree.** For every call of the client with plain arguments,
the server's router sends the request to the handler the call is written for, with the client's
customer number, GUID, well and shard as the variables. -/
theorem Call.serveHTTP_request (c : UInt64) {call : Call} (hp : call.PlainArgs) :
    Router.serveHTTP routes (call.request c).1 (urlPath (call.request c).2) =
      .serve call.endpoint (call.vars c) := by
  have hs := Call.segments_plain c hp
  rw [Call.request_path, urlPath_slashed fun w h => (hs w h).2, Router.serveHTTP,
    if_pos (cleanPath_slashed (Call.segments_ne_nil c call) fun w h => (hs w h).1)]
  exact Call.firstMatch_request c hp

theorem Call.serveHTTP_request_wellTimeframe :
    let call : Call := .getWellTimeframe "01234567-89ab-cdef-0123-456789abcdef".data "w".data
    call.PlainArgs ∧ Router.serveHTTP routes (call.request 7).1 (urlPath (call.request 7).2) =
      .serve call.endpoint (call.vars 7) :=
  ⟨by decide, Call.serveHTTP_request 7 (by decide)⟩

/-! ## Served as the client's customer -/

theorem uint64_ofNat_toNat (c : UInt64) : UInt64.ofNat c.toNat = c :=
  UInt64.toNat.inj (UInt64.toNat_ofNat_of_lt c.toNat_lt_size)

/-- Every handler behind `authChain` reads the variables of a call written for it back as the
client's customer, and with a sound body, stream and timeframe reaches the `ShardHandler`. -/
theorem Call.handler_vars (c : UInt64) {call : Call}
    (hg : ∀ g ∈ call.guid?, (uuidParse g).isSome) {h : Request → UInt64 → Outcome}
    (hh : call.endpoint.handler = some h) {req : Request} (hr : req.Sound) :
    h { req with vars := call.vars c } c = .backend c := by
  obtain ⟨hbody, hstream, hle, h0, h1⟩ := hr
  have hc : parseUint (decimal c.toNat) 64 = some c.toNat := parseUint_decimal c.toNat_lt_size
  cases call <;> simp only [Call.endpoint, Endpoint.handler, Option.some.injEq,
    reduceCtorEq] at hh <;> subst hh <;>
    simp only [Call.guid?, Option.mem_def, Option.some.injEq, forall_eq'] at hg <;>
    simp [Webserver.indexerGetTags, Webserver.indexerSyncTags, Webserver.shardPushHandler,
      Webserver.shardPullHandler, Webserver.getWellTimeframe, Webserver.getWellShardsInTimeframe,
      Webserver.indexerListWells, Webserver.customerListIndexers, authedHandler, parseVars,
      MuxVar.parse, List.lookup_cons, Call.vars, hc, uint64_ofNat_toNat, hg, uuidParse_uuidString, noPost, bodyPost,
      streamPost, timeframePost, hbody, hstream, h0, h1, not_lt.mpr hle]

/-- **A logged-in client is served as its own customer.** A client that logged in as customer
`c < 2^53` and sends, with its token, a data request with plain arguments and a GUID that
parses, and a sound body, stream and timeframe, has it served by the `ShardHandler` as `c`. -/
theorem Call.respond_backend {mac : Mac} {secret : List UInt8} {ovf c : UInt64}
    (hc : c.toNat < 2 ^ 53) {call : Call} (hp : call.PlainArgs)
    (hg : ∀ g ∈ call.guid?, (uuidParse g).isSome) (hd : call.endpoint.handler.isSome)
    {req : Request} (hb : req.bearer = some (loginToken mac secret c)) (hr : req.Sound) :
    respond mac secret ovf (call.request c).1 (call.request c).2 req = some (.backend c) := by
  have hs := Call.segments_plain c hp
  obtain ⟨h, hh⟩ := Option.isSome_iff_exists.mp hd
  rw [respond, Call.request_path, urlPath_slashed fun w h => (hs w h).2, Router.serveHTTP,
    if_pos (cleanPath_slashed (Call.segments_ne_nil c call) fun w h => (hs w h).1),
    Call.firstMatch_request c hp]
  simp only [hh, Option.map_some', Option.some.injEq]
  rw [serve_loginToken _ (show ({ req with vars := call.vars c } : Request).bearer = _ from hb),
    float64ToUint64_roundFloat64_of_lt ovf hc]
  exact Call.handler_vars c hg hh hr

theorem Call.respond_backend_pull :
    let mac : Mac := fun _ _ _ => []
    let call : Call := .pullShard ⟨5, "w".data, "769f2".data⟩
    let req : Request := ⟨some (loginToken mac [] 9), [], true, 1, 2, true⟩
    (9 : UInt64).toNat < 2 ^ 53 ∧ call.PlainArgs ∧ (∀ g ∈ call.guid?, (uuidParse g).isSome) ∧
      call.endpoint.handler.isSome ∧ req.Sound ∧
      respond mac [] 0 (call.request 9).1 (call.request 9).2 req = some (.backend 9) := by
  intro mac call req
  have hg : ∀ g ∈ call.guid?, (uuidParse g).isSome := by
    simp [call, Call.guid?, uuidParse_uuidString]
  have hr : req.Sound := by decide
  exact ⟨by decide, by decide, hg, rfl, hr, Call.respond_backend (by decide) (by decide) hg rfl
    rfl hr⟩

/-! ## Only the token's customer reaches the `ShardHandler` -/

/-- `authedHandler` calls the `ShardHandler` only for the customer it was given, when its own
steps never do. -/
theorem authedHandler_backend {vars : List MuxVar} {post : Request → Option Outcome}
    (hpost : ∀ r v, post r ≠ some (.backend v)) {req : Request} {cust u : UInt64}
    (h : authedHandler vars post req cust = .backend u) : u = cust := by
  unfold authedHandler at h
  split at h
  · cases h
  · cases h
  · next id _ =>
    by_cases hid : id = cust
    · rw [if_neg (not_not.mpr hid)] at h
      cases hp : post req with
      | none => rw [hp] at h; cases h; exact hid
      | some o => rw [hp, Option.getD_some] at h; exact absurd (h ▸ hp) (hpost req u)
    · rw [if_pos hid] at h
      cases h

/-- Every handler behind `authChain` calls the `ShardHandler` only for the customer it was
given. -/
theorem Endpoint.handler_backend {e : Endpoint} {h : Request → UInt64 → Outcome}
    (hh : e.handler = some h) {req : Request} {cust u : UInt64} (hb : h req cust = .backend u) :
    u = cust := by
  have hno : ∀ r v, noPost r ≠ some (.backend v) := by simp [noPost]
  have hbody : ∀ r v, bodyPost r ≠ some (.backend v) := by intro r v; unfold bodyPost; split <;> simp
  have hstream : ∀ r v, streamPost r ≠ some (.backend v) := by
    intro r v; unfold streamPost; split <;> simp
  have htf : ∀ r v, timeframePost r ≠ some (.backend v) := by
    intro r v; unfold timeframePost; split_ifs <;> simp
  cases e <;> simp only [Endpoint.handler, Option.some.injEq, reduceCtorEq] at hh <;> subst hh
  all_goals first
    | exact authedHandler_backend hno hb
    | exact authedHandler_backend hbody hb
    | exact authedHandler_backend hstream hb
    | exact authedHandler_backend htf hb

/-- **Only the token's customer reaches the `ShardHandler`.** Whatever the method and URL path
of a request, when the server's answer is the `ShardHandler`'s for customer `u`, the request
carries a token that decodes to `u`. -/
theorem respond_backend_decodes {mac : Mac} {secret : List UInt8} {ovf : UInt64} {m : Method}
    {url : List Char} {req : Request} {u : UInt64}
    (h : respond mac secret ovf m url req = some (.backend u)) :
    ∃ tok, req.bearer = some tok ∧ decodeJWTToken mac secret ovf tok = .ok u := by
  unfold respond at h
  split at h
  · next e vars _ =>
    obtain ⟨hf, hh, hs⟩ := Option.map_eq_some'.mp h
    unfold serve at hs
    split at hs
    · cases hs
    · next tok hbt =>
      split at hs
      · cases hs
      · next cust hdec =>
        exact ⟨tok, hbt, Endpoint.handler_backend hh hs ▸ hdec⟩
  all_goals cases h

theorem respond_backend_decodes_five :
    let mac : Mac := fun _ _ _ => []
    let req : Request := ⟨some (loginToken mac [] 5), [], true, 0, 0, true⟩
    respond mac [] 0 .get "/api/shard/5".data req = some (.backend 5) ∧
      ∃ tok, req.bearer = some tok ∧ decodeJWTToken mac [] 0 tok = .ok 5 := by
  intro mac req
  have hr : Router.serveHTTP routes .get (urlPath "/api/shard/5".data) =
      .serve .customerListIndexers [("custid", "5")] := by decide
  have h : respond mac [] 0 .get "/api/shard/5".data req = some (.backend 5) := by
    rw [respond, hr]
    simp only [Endpoint.handler, Option.map_some', Option.some.injEq]
    rw [serve_loginToken _ rfl]
    rfl
  exact ⟨h, respond_backend_decodes h⟩

end CloudArchive.Webserver

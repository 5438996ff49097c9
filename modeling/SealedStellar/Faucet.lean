import SealedStellar.RateLimit
import SealedStellar.StrKey
import SealedStellar.Lib.BigIntText
import SealedStellar.Lib.Checked
import Mathlib.Data.Rat.Floor

/-! The test-token faucet, web/api/faucet.ts and faucet/src: two handlers around the same cooldown
and the same two mints. A handler runs without a pause between its awaits. -/
namespace SealedStellar.Faucet
open Checked

inductive Token where
  | tUSDC | tBENJI
  deriving DecidableEq

def Token.symbol : Token → String
  | .tUSDC => "tUSDC"
  | .tBENJI => "tBENJI"

structure Config where
  contractId : Token → String
  amount : Token → ℕ
  cooldownMs : ℚ

def defaults : Config where
  contractId
    | .tUSDC => "CDIKPNCUSBHSTGD5GZKKHPK6BVE732BUCKQ3EPLYMSLUSHEZPAFTNPVX"
    | .tBENJI => "CDUTXMK5MGOXSBUPZNQZ6J5RCQEVC4MOMYW72WXVUWV5W7OCXJIGJUGN"
  amount _ := 500000
  cooldownMs := 60000

def plannedGrants : List Token := [.tUSDC, .tBENJI]

inductive ErrorKind where
  | bad_request | rate_limited | no_trustline | mint_failed | server_misconfigured
  | chain_unreachable
  deriving DecidableEq

structure GrantError where
  kind : ErrorKind
  detail : String
  deriving DecidableEq

structure TokenGrant where
  symbol : String
  contractId : String
  amountBaseUnits : String
  txHash : String
  deriving DecidableEq

inductive Body where
  | error (kind : ErrorKind) (message : String)
  | granted (address : String) (grants : List TokenGrant)
  deriving DecidableEq

structure Response where
  status : ℕ
  body : Body
  retryAfter : Option ℤ
  deriving DecidableEq

inductive Tx where
  | unsent | sent | executed | failed
  deriving DecidableEq

/-- A request past the cooldown check, with the mints that are not confirmed yet; the first of them
is awaited. -/
structure Granting where
  address : String
  planned : List Token
  grants : List TokenGrant
  txs : Token → Tx
  response : Option Response

inductive Request where
  | reading
  | refused (response : Response)
  | admitted (granting : Granting)

structure Mint where
  request : ℕ
  token : Token
  address : String
  amount : ℕ
  atMs : ℚ
  deriving DecidableEq

structure Process where
  nowMs : ℚ
  lastGrantMsByAddress : String → Option ℚ
  requests : List Request
  mints : List Mint

section Grants

def grantTestTokens (address : String) : Request :=
  .admitted ⟨address, plannedGrants, [], fun _ => .unsent, none⟩

def Request.granting : Request → Option Granting
  | .admitted granting => some granting
  | _ => none

def Process.granting (p : Process) (i : ℕ) : Option Granting := p.requests[i]?.bind Request.granting

def Process.setRequest (p : Process) (i : ℕ) (request : Request) : Process :=
  { p with requests := p.requests.set i request }

def Granting.setTx (granting : Granting) (token : Token) (tx : Tx) : Granting :=
  { granting with txs := Function.update granting.txs token tx }

def Granting.awaited (granting : Granting) : Option (Token × List Token) :=
  match granting.response, granting.planned with
  | none, token :: rest => some (token, rest)
  | _, _ => none

/-- What differs between the two copies of the loop over the grants: a mint's answers, what it
returns for them, and the response to its error. -/
structure Service where
  config : Config
  Answers : Type
  mintToken : Answers → Except GrantError String
  respond : GrantError → Response

inductive Event (Answers : Type) where
  | wait (ms : ℚ)
  | send (i : ℕ)
  | execute (i : ℕ) (token : Token)
  | drop (i : ℕ) (token : Token)
  | minted (i : ℕ) (answers : Answers)

variable (service : Service) (p : Process)

def wait (ms : ℚ) : Option Process := if 0 ≤ ms then some { p with nowMs := p.nowMs + ms } else none

def send (i : ℕ) : Option Process := do
  let granting ← p.granting i
  let (token, _) ← granting.awaited
  if granting.txs token = .unsent then some (p.setRequest i (.admitted (granting.setTx token .sent)))
  else none

def execute (i : ℕ) (token : Token) : Option Process := do
  let granting ← p.granting i
  if granting.txs token = .sent then
    some { p.setRequest i (.admitted (granting.setTx token .executed)) with
      mints := p.mints ++ [⟨i, token, granting.address, service.config.amount token, p.nowMs⟩] }
  else none

def drop (i : ℕ) (token : Token) : Option Process := do
  let granting ← p.granting i
  if granting.txs token = .sent then some (p.setRequest i (.admitted (granting.setTx token .failed)))
  else none

def record (i : ℕ) (granting : Granting) : Process :=
  { p.setRequest i (.admitted { granting with
      response := some ⟨200, .granted granting.address granting.grants, none⟩ }) with
    lastGrantMsByAddress :=
      Function.update p.lastGrantMsByAddress granting.address (some p.nowMs) }

def minted (i : ℕ) (answers : service.Answers) : Option Process := do
  let granting ← p.granting i
  let (token, rest) ← granting.awaited
  match service.mintToken answers with
  | .error e =>
    some (p.setRequest i (.admitted { granting with response := some (service.respond e) }))
  | .ok txHash =>
    let grant : TokenGrant := ⟨token.symbol, service.config.contractId token,
      toString (service.config.amount token), txHash⟩
    let granting' := { granting with planned := rest, grants := granting.grants ++ [grant] }
    if granting.txs token ≠ .executed then none
    else if rest = [] then some (record p i granting')
    else some (p.setRequest i (.admitted granting'))

def Service.step : Event service.Answers → Process
  | .wait ms => (wait p ms).getD p
  | .send i => (send p i).getD p
  | .execute i token => (execute service p i token).getD p
  | .drop i token => (drop p i token).getD p
  | .minted i answers => (minted service p i answers).getD p

def launch (nowMs : ℚ) : Process := ⟨nowMs, fun _ => none, [], []⟩

end Grants

def trim (text : String) : String := .ofList (BigIntText.trim text.toList)

/-- Only its address matters: none where it is no object with an address that is a string. -/
structure Json where
  address : Option String

def Json.readAddress (json : Json) : String := (json.address.map trim).getD ""

def mentionsTrustline (detail : String) : Prop := "trustline".toList <:+: detail.toLower.toList

instance (detail : String) : Decidable (mentionsTrustline detail) :=
  inferInstanceAs (Decidable ("trustline".toList <:+: detail.toLower.toList))

/-! web/api/faucet.ts. -/
namespace Serverless

structure Environment where
  faucetRpcUrl : Option String
  issuerSecret : Option String

/-- A body arrives parsed, or as text with what JSON.parse makes of it. -/
inductive RequestBody where
  | parsed (json : Json)
  | text (json : Option Json)

structure VercelRequest where
  method : String
  body : RequestBody

def readAddress : RequestBody → String
  | .parsed json => json.readAddress
  | .text none => ""
  | .text (some json) => json.readAddress

def expectedIssuer : String := "GDYLKSRXQZ7Y2Y44HDKVXB74WSXFRZRMGHKGG5XXO7ZFOWU7HWVYRR3G"

def statusForError : ErrorKind → ℕ
  | .bad_request => 400
  | .no_trustline => 400
  | .rate_limited => 429
  | .mint_failed => 502
  | .server_misconfigured => 503
  -- no error of this handler
  | .chain_unreachable => 502

def respond (e : GrantError) : Response := ⟨statusForError e.kind, .error e.kind e.detail, none⟩

def loadIssuer (publicKey : String → Option String) (env : Environment) :
    Except GrantError String := do
  let rpcUrl := env.faucetRpcUrl.getD "https://soroban-testnet.stellar.org"
  ensure ("testnet".toList <:+: rpcUrl.toList)
    ⟨.server_misconfigured, "faucet RPC must target testnet"⟩
  let secret := (env.issuerSecret.map trim).getD ""
  ensure (secret ≠ "") ⟨.server_misconfigured, "faucet is missing ISSUER_SECRET"⟩
  let key ← okOr (publicKey secret)
    ⟨.server_misconfigured, "ISSUER_SECRET is not a valid secret seed"⟩
  ensure (key = expectedIssuer)
    ⟨.server_misconfigured, "ISSUER_SECRET does not match the expected issuer"⟩
  return key

/-- What one call of mintToken is answered; a poll without an answer is none. -/
structure MintAnswers where
  getAccount : Except String Unit
  prepareTransaction : Except String Unit
  sendTransaction : Except String (String × String)
  polls : ℕ → Option String

def pollMint (answers : MintAnswers) (hash : String) : ℕ → ℕ → Except GrantError String
  | 0, _ => .error ⟨.mint_failed, "mint confirmation timed out"⟩
  | n + 1, pollIndex =>
    if answers.polls pollIndex = some "SUCCESS" then .ok hash
    else if answers.polls pollIndex = some "FAILED" then
      .error ⟨.mint_failed, "the mint failed on chain"⟩
    else pollMint answers hash n (pollIndex + 1)

def prepareError (detail : String) : GrantError :=
  if mentionsTrustline detail then
    ⟨.no_trustline, "destination has no trustline for the asset"⟩
  else ⟨.mint_failed, detail⟩

def mintToken (answers : MintAnswers) : Except GrantError String := do
  answers.getAccount.mapError fun detail => ⟨.mint_failed, "cannot load issuer account: " ++ detail⟩
  answers.prepareTransaction.mapError prepareError
  let (status, hash) ← answers.sendTransaction.mapError fun detail => ⟨.mint_failed, detail⟩
  ensure (status ≠ "ERROR") ⟨.mint_failed, "the network rejected the mint"⟩
  pollMint answers hash 12 0

def service (config : Config) : Service := ⟨config, MintAnswers, mintToken, respond⟩

variable (strKey : StrKey) (publicKey : String → Option String) (env : Environment) (config : Config)

def handler (p : Process) (req : VercelRequest) : Request :=
  if req.method ≠ "POST" then .refused ⟨405, .error .bad_request "POST only", none⟩
  else
    match loadIssuer publicKey env with
    | .error e => .refused (respond e)
    | .ok _ =>
      let address := readAddress req.body
      if strKey.decodeEd25519PublicKey address = none then
        .refused ⟨400, .error .bad_request "address must be a valid Stellar account (G...)", none⟩
      else
        match p.lastGrantMsByAddress address with
        | none => grantTestTokens address
        | some lastMs =>
          if p.nowMs - lastMs < config.cooldownMs then
            let waitSeconds := ⌈(config.cooldownMs - (p.nowMs - lastMs)) / 1000⌉
            .refused ⟨429, .error .rate_limited
              s!"already funded; wait {waitSeconds}s before requesting again", none⟩
          else grantTestTokens address

inductive Action where
  | arrive (req : VercelRequest)
  | go (event : Event MintAnswers)

def step (p : Process) : Action → Process
  | .arrive req => { p with requests := p.requests ++ [handler strKey publicKey env config p req] }
  | .go event => (service config).step p event

end Serverless

/-! faucet/src/api.ts, mint.ts and chain.ts. -/
namespace Standalone

structure ExecFileException where
  message : String
  killed : Bool
  signal : Option String

inductive FailReason where
  | missing_cli | timeout | nonzero

inductive StellarRun where
  | ok (stderr : String)
  | failed (reason : FailReason) (stderr : String)

def runStellar (error : Option ExecFileException) (stderr : String) : StellarRun :=
  match error with
  | none => .ok stderr
  | some error =>
    if "ENOENT".toList <:+: error.message.toList then .failed .missing_cli stderr
    else if error.killed ∨ error.signal = some "SIGTERM" then .failed .timeout stderr
    else .failed .nonzero stderr

def txHashAt (text : List Char) : Option String :=
  let opening := "signing transaction:".toList
  let rest := (text.drop opening.length).dropWhile BigIntText.isWhiteSpace
  let digits := rest.take 64
  if (text.take opening.length).map Char.toLower = opening ∧ digits.length = 64 ∧
      digits.all fun c => (BigIntText.digitValue 16 c.toLower).isSome then some (.ofList digits)
  else none

def txHashIn (stderr : String) : Option String := stderr.toList.tails.findSome? txHashAt

def firstMeaningfulLine (text : String) : String :=
  (((text.splitOn "\n").map trim).find? fun line => line ≠ "").getD "mint failed"

structure MintAnswers where
  error : Option ExecFileException
  stderr : String

variable (stellarBin : String)

def mintToken (answers : MintAnswers) : Except GrantError String :=
  match runStellar answers.error answers.stderr with
  | .ok stderr => .ok ((txHashIn stderr).getD "")
  | .failed .missing_cli _ => .error ⟨.mint_failed,
      "the \"" ++ stellarBin ++ "\" CLI is not on PATH; the faucet needs it to mint"⟩
  | .failed .timeout _ => .error ⟨.chain_unreachable, "the mint timed out talking to testnet"⟩
  | .failed .nonzero stderr =>
    if mentionsTrustline stderr then
      .error ⟨.no_trustline, "destination has no trustline for the asset"⟩
    else .error ⟨.mint_failed, firstMeaningfulLine stderr⟩

def httpStatusForError : ErrorKind → ℕ
  | .bad_request => 400
  | .no_trustline => 400
  | .rate_limited => 429
  | .mint_failed => 502
  | .chain_unreachable => 502
  -- no error of this service
  | .server_misconfigured => 503

def describeFaucetError (e : GrantError) : String :=
  match e.kind with
  | .no_trustline =>
    "the destination has no trustline for the asset; add it before requesting tokens"
  | .mint_failed => "mint failed: " ++ e.detail
  | .chain_unreachable => "testnet rpc is not answering; retry shortly"
  | _ => e.detail

def respond (e : GrantError) : Response :=
  ⟨httpStatusForError e.kind, .error e.kind (describeFaucetError e), none⟩

def service (config : Config) : Service := ⟨config, MintAnswers, mintToken stellarBin, respond⟩

variable (strKey : StrKey) (config : Config)

def cooldownRemainingMs (p : Process) (address : String) : ℚ :=
  match p.lastGrantMsByAddress address with
  | none => 0
  | some lastMs =>
    let elapsedMs := p.nowMs - lastMs
    if config.cooldownMs ≤ elapsedMs then 0 else config.cooldownMs - elapsedMs

def postFaucet (p : Process) (json : Option Json) : Request :=
  match json with
  | none =>
    .refused ⟨400, .error .bad_request "body must be JSON: \x7b \"address\": \"G...\" \x7d", none⟩
  | some json =>
    let address := json.readAddress
    if strKey.decodeEd25519PublicKey address = none then
      .refused ⟨400, .error .bad_request "address must be a valid Stellar account (G...)", none⟩
    else
      let remainingMs := cooldownRemainingMs config p address
      if 0 < remainingMs then
        let remainingSeconds := ⌈remainingMs / 1000⌉
        .refused ⟨429, .error .rate_limited
          s!"already funded; wait {remainingSeconds}s before requesting again",
          some remainingSeconds⟩
      else grantTestTokens address

structure Server where
  process : Process
  rateBuckets : RateBuckets

inductive Action where
  | arrive (clientIp : String)
  | body (i : ℕ) (json : Option Json)
  | go (event : Event MintAnswers)

/-- The middleware: a request that gets a token goes on to read its body. -/
def limit (granted : Bool) : Request :=
  if granted then .reading
  else .refused ⟨429, .error .rate_limited "too many requests; slow down", some 5⟩

def readBody (p : Process) (i : ℕ) (json : Option Json) : Option Process :=
  match p.requests[i]? with
  | some .reading => some (p.setRequest i (postFaucet strKey config p json))
  | _ => none

def step (server : Server) : Action → Server
  | .arrive clientIp =>
    let (granted, rateBuckets) := Faucet.takeToken server.rateBuckets clientIp server.process.nowMs
    { process := { server.process with requests := server.process.requests ++ [limit granted] }
      rateBuckets := rateBuckets }
  | .body i json =>
    { server with process := (readBody strKey config server.process i json).getD server.process }
  | .go event => { server with process := (service stellarBin config).step server.process event }

end Standalone
end SealedStellar.Faucet

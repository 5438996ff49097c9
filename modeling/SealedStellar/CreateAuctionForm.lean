import SealedStellar.BidDialog
import SealedStellar.Registration
import SealedStellar.SettleAgreement
import SealedStellar.Lib.Double

/-! CreateAuctionRoute.tsx, WhitelistEditorDialog.tsx: from the edits of a seller to the call of
create_auction. -/
namespace SealedStellar.Web
open Checked BigEndian

section Tokens

structure WalletAsset where
  contractId : String
  symbol : String

def knownTokens : List WalletAsset := [
  ⟨"CDUTXMK5MGOXSBUPZNQZ6J5RCQEVC4MOMYW72WXVUWV5W7OCXJIGJUGN", "tBENJI"⟩,
  ⟨"CDIKPNCUSBHSTGD5GZKKHPK6BVE732BUCKQ3EPLYMSLUSHEZPAFTNPVX", "tUSDC"⟩]

def addToken (tokens : List WalletAsset) (token : WalletAsset) : List WalletAsset :=
  if ∃ existing ∈ tokens, existing.contractId = token.contractId then tokens else tokens ++ [token]

def buildTokenOptions (customTokens : List WalletAsset) : List WalletAsset :=
  customTokens.foldl addToken knownTokens

def Offers (options : List WalletAsset) (tokenId : String) : Prop :=
  ∃ option ∈ options, option.contractId = tokenId

instance (options : List WalletAsset) (tokenId : String) : Decidable (Offers options tokenId) :=
  inferInstanceAs (Decidable (∃ option ∈ options, option.contractId = tokenId))

end Tokens

section Editor
variable (strKey : StrKey)

/-- The lines of a text with an address in them, and how many others have text; the \r of a line end
goes with the white space. -/
def parseAddressLines (rawText : String) : List String × ℕ :=
  let lines := ((rawText.toList.splitOn '\n').map fun line => String.ofList (BigIntText.trim line)).filter
    fun line => line ≠ ""
  let valid := lines.filter fun line => (strKey.decodeEd25519PublicKey line).isSome
  (valid, lines.length - valid.length)

def pushNew (merged : List String) (address : String) : List String :=
  if address ∈ merged then merged else merged ++ [address]

def mergeMembers (current valid : List String) : List String :=
  (valid.foldl pushNew current).take maxWhitelistMembers

structure WhitelistEditor where
  members : List String
  entryText : String
  notice : Option String

def WhitelistEditor.addFromText (editor : WhitelistEditor) (rawText : String) : WhitelistEditor :=
  let (valid, invalidCount) := parseAddressLines strKey rawText
  if valid = [] then
    { editor with notice := some (if 0 < invalidCount then
        "None of those lines are valid Stellar addresses (they start with G)."
      else "Enter at least one address.") }
  else
    { members := mergeMembers editor.members valid
      entryText := ""
      notice := some (s!"Added {valid.length} address(es)." ++
        if 0 < invalidCount then s!" {invalidCount} invalid line(s) skipped." else "") }

def WhitelistEditor.removeMember (editor : WhitelistEditor) (address : String) : WhitelistEditor :=
  { editor with members := editor.members.filter fun existing => existing ≠ address, notice := none }

end Editor

section Page

structure CreateForm where
  lotTokenId : String
  lotAmountText : String
  paymentTokenId : String
  maxPriceText : String
  windowMinutesText : String
  graceHoursText : String
  whitelistMembers : List String

inductive PickerTarget where
  | lot | payment

structure CreatePage where
  form : CreateForm
  customTokens : List WalletAsset
  pickerTarget : PickerTarget
  /-- Mounted while it is open. -/
  whitelistEditor : Option WhitelistEditor

def newPage : CreatePage where
  form := ⟨"CDUTXMK5MGOXSBUPZNQZ6J5RCQEVC4MOMYW72WXVUWV5W7OCXJIGJUGN", "50000",
    "CDIKPNCUSBHSTGD5GZKKHPK6BVE732BUCKQ3EPLYMSLUSHEZPAFTNPVX", "50000", "30", "24",
    demoWhitelistMembers⟩
  customTokens := []
  pickerTarget := .lot
  whitelistEditor := none

inductive PageStep where
  | typeLotAmount (text : String)
  | typeMaxPrice (text : String)
  | typeWindowMinutes (text : String)
  | typeGraceHours (text : String)
  | selectLot (tokenId : String)
  | selectPayment (tokenId : String)
  | openTokenPicker (target : PickerTarget)
  | addAndSelectToken (token : WalletAsset)
  | editWhitelist
  | typeEntry (text : String)
  | addEntry
  | upload (text : String)
  | removeMember (address : String)
  | confirmWhitelist
  | cancelWhitelist

def CreateForm.selectToken (form : CreateForm) (tokenId : String) : PickerTarget → CreateForm
  | .lot => { form with lotTokenId := tokenId }
  | .payment => { form with paymentTokenId := tokenId }

def CreatePage.edit (page : CreatePage) (change : WhitelistEditor → WhitelistEditor) : CreatePage :=
  { page with whitelistEditor := page.whitelistEditor.map change }

def CreatePage.step (strKey : StrKey) (page : CreatePage) : PageStep → CreatePage
  | .typeLotAmount text => { page with form := { page.form with lotAmountText := text } }
  | .typeMaxPrice text => { page with form := { page.form with maxPriceText := text } }
  | .typeWindowMinutes text => { page with form := { page.form with windowMinutesText := text } }
  | .typeGraceHours text => { page with form := { page.form with graceHoursText := text } }
  -- the controls have a button for each option
  | .selectLot tokenId =>
    if Offers (buildTokenOptions page.customTokens) tokenId then
      { page with form := page.form.selectToken tokenId .lot }
    else page
  | .selectPayment tokenId =>
    if Offers (buildTokenOptions page.customTokens) tokenId then
      { page with form := page.form.selectToken tokenId .payment }
    else page
  | .openTokenPicker target => { page with pickerTarget := target }
  | .addAndSelectToken token =>
    { page with customTokens := addToken page.customTokens token
                form := page.form.selectToken token.contractId page.pickerTarget }
  | .editWhitelist => { page with whitelistEditor := some ⟨page.form.whitelistMembers, "", none⟩ }
  | .typeEntry text => page.edit fun editor => { editor with entryText := text }
  -- the button is disabled on blank text
  | .addEntry => page.edit fun editor =>
      if BigIntText.trim editor.entryText.toList = [] then editor
      else editor.addFromText strKey editor.entryText
  | .upload text => page.edit fun editor => editor.addFromText strKey text
  | .removeMember address => page.edit fun editor => editor.removeMember address
  | .confirmWhitelist =>
    match page.whitelistEditor with
    | some editor =>
      if editor.members = [] then
        { page with whitelistEditor := some { editor with
            notice := some "Add at least one whitelisted address before confirming." } }
      else { page with form := { page.form with whitelistMembers := editor.members }
                       whitelistEditor := none }
    | none => page
  | .cancelWhitelist => { page with whitelistEditor := none }

end Page

section Create

inductive CreateStage where
  | form (validationMessage : Option String)
  | submitting
  | created (txHash : String)
  | failed (failure : CreateAuctionFailure)

structure FormValues where
  lotAmount : ℤ
  maxPrice : ℤ
  /-- None is Infinity. -/
  windowMinutes : Option ℕ
  graceHours : Option ℕ

def parsePositiveBig (amountText label : String) : Except String ℤ :=
  parsePositive (label ++ " must be a whole number of token units.") (label ++ " must be above zero.")
    amountText

def parsePositiveInt (text label : String) : Except String (Option ℕ) := do
  let trimmed := BigIntText.trim text.toList
  ensure (trimmed ≠ [] ∧ trimmed.all Char.isDigit) (label ++ " must be a whole number.")
  let number ← toBigInt (.ofList trimmed)
  let value := Double.ofNat number.toNat
  ensure (value ≠ some 0) (label ++ " must be above zero.")
  return value

def checkForm (form : CreateForm) : Except String FormValues := do
  let lotAmount ← parsePositiveBig form.lotAmountText "Lot amount"
  let maxPrice ← parsePositiveBig form.maxPriceText "Max price"
  ensure (maxPrice ≤ u64Max) "Max price must fit in 64 bits."
  let windowMinutes ← parsePositiveInt form.windowMinutesText "Bid window"
  let graceHours ← parsePositiveInt form.graceHoursText "Grace period"
  ensure (form.lotTokenId ≠ form.paymentTokenId)
    "The lot asset and the payment asset must be different."
  return ⟨lotAmount, maxPrice, windowMinutes, graceHours⟩

def demoWhitelistRoot : ℤ :=
  5172224275804351315414901861729184676010438551683667636100386119102665402371

def demoOperatorEncPubkey : Key :=
  let bytes := Hex.decode "e2b45dd934b5429480a66d52b2c450df53b045ce4a89945a3e4f9bb121620806".toList
  Vector.ofFn fun byteIndex => bytes.getD byteIndex 0

structure CreateAuctionParams where
  sellerAddress : String
  rwaToken : String
  lotAmount : ℤ
  paymentToken : String
  maxPrice : ℤ
  commitDeadline : ℕ
  gracePeriod : ℕ
  whitelistRoot : ℤ
  operatorEncPubkey : Key

/-- nowSeconds + windowMinutes * 60 in doubles. -/
def deadlineAfter (nowSeconds : ℕ) (windowMinutes : Option ℕ) : Option ℕ := do
  let minutes ← windowMinutes
  let window ← Double.ofNat (minutes * 60)
  Double.ofNat (nowSeconds + window)

def graceSeconds (graceHours : Option ℕ) : Option ℕ := do
  let hours ← graceHours
  Double.ofNat (hours * 3600)

/-- The root of the form's list; a list other than the demo one is registered first, with the outcome
given. -/
def rootFor (strKey : StrKey) (hash : List ℤ → ℤ)
    (registered : ℤ → List String → Except CreateAuctionFailure Unit) (members : List String) :
    Except CreateStage ℤ :=
  if members = demoWhitelistMembers then .ok demoWhitelistRoot
  else
    match computeWhitelistRoot strKey hash members with
    | .error message => .error (.form (some message))
    | .ok root =>
      match registered root members with
      | .error failure => .error (.failed failure)
      | .ok () => .ok root

/-- runCreate up to submitCreateAuction, or the stage it ends in, none where it returns at once.
BigInt(Infinity) throws, and nothing catches it. -/
def runCreate (strKey : StrKey) (hash : List ℤ → ℤ)
    (registered : ℤ → List String → Except CreateAuctionFailure Unit) (nowSeconds : ℕ)
    (wallet : WalletState) (form : CreateForm) : Except (Option CreateStage) CreateAuctionParams := do
  let .connected address := wallet | .error none
  let values ← (checkForm form).mapError fun message => some (.form (some message))
  let whitelistRoot ← (rootFor strKey hash registered form.whitelistMembers).mapError some
  let commitDeadline ← okOr (deadlineAfter nowSeconds values.windowMinutes) (some .submitting)
  let gracePeriod ← okOr (graceSeconds values.graceHours) (some .submitting)
  return { sellerAddress := address, rwaToken := form.lotTokenId, lotAmount := values.lotAmount,
           paymentToken := form.paymentTokenId, maxPrice := values.maxPrice,
           commitDeadline := commitDeadline, gracePeriod := gracePeriod,
           whitelistRoot := whitelistRoot, operatorEncPubkey := demoOperatorEncPubkey }

/-- The arguments of the call; nativeToScVal throws on what does not fit its type. -/
def CreateAuctionParams.args (readAddress : String → Option Address) (params : CreateAuctionParams) :
    Option CreateArgs := do
  let seller ← readAddress params.sellerAddress
  let rwaToken ← readAddress params.rwaToken
  let paymentToken ← readAddress params.paymentToken
  if params.lotAmount < 2 ^ 127 ∧ params.maxPrice < 2 ^ 127 ∧ params.commitDeadline ≤ u64Max ∧
      params.gracePeriod ≤ u64Max ∧ 0 ≤ params.whitelistRoot ∧ params.whitelistRoot < 2 ^ 256 then
    some { seller, rwaToken, lotAmount := params.lotAmount, paymentToken, maxPrice := params.maxPrice,
           commitDeadline := params.commitDeadline, gracePeriod := params.gracePeriod,
           whitelistRoot := .ofInt 256 params.whitelistRoot,
           operatorEncPubkey := params.operatorEncPubkey }
  else none

def createdStage : Except InvocationFailure String → CreateStage
  | .ok txHash => .created txHash
  | .error failure => .failed (mapInvocationToCreateFailure failure)

end Create

section Lists
variable {strKey : StrKey} {current valid members : List String}

structure Listed (strKey : StrKey) (members : List String) : Prop where
  valid : ∀ m ∈ members, (strKey.decodeEd25519PublicKey m).isSome
  nodup : members.Nodup
  capacity : members.length ≤ maxWhitelistMembers

theorem parseAddressLines_valid {rawText : String} {m : String}
    (hm : m ∈ (parseAddressLines strKey rawText).1) : (strKey.decodeEd25519PublicKey m).isSome := by
  simp only [parseAddressLines] at hm
  exact (List.mem_filter.mp hm).2

theorem pushNew_nodup {merged : List String} {address : String} (hn : merged.Nodup) :
    (pushNew merged address).Nodup := by
  rw [pushNew]
  split
  · exact hn
  · rename_i hnew
    exact hn.append (List.nodup_singleton _) (List.disjoint_singleton.mpr hnew)

theorem mem_pushNew {merged : List String} {address m : String} (hm : m ∈ pushNew merged address) :
    m ∈ merged ∨ m = address := by
  rw [pushNew] at hm
  split at hm
  · exact .inl hm
  · simpa using hm

theorem merged_nodup (hn : current.Nodup) : (valid.foldl pushNew current).Nodup := by
  induction valid generalizing current with
  | nil => exact hn
  | cons address valid ih => exact ih (pushNew_nodup hn)

theorem mem_merged {m : String} (hm : m ∈ valid.foldl pushNew current) : m ∈ current ∨ m ∈ valid := by
  induction valid generalizing current with
  | nil => exact .inl hm
  | cons address valid ih =>
    obtain hm | hm := ih hm
    · obtain hm | rfl := mem_pushNew hm
      · exact .inl hm
      · exact .inr List.mem_cons_self
    · exact .inr (List.mem_cons_of_mem _ hm)

theorem Listed.merge (hl : Listed strKey current)
    (hvalid : ∀ m ∈ valid, (strKey.decodeEd25519PublicKey m).isSome) :
    Listed strKey (mergeMembers current valid) where
  valid := fun m hm => (mem_merged (List.mem_of_mem_take hm)).elim (hl.valid m) (hvalid m)
  nodup := (merged_nodup hl.nodup).sublist (List.take_sublist _ _)
  capacity := List.length_take_le _ _

theorem Listed.filter (hl : Listed strKey members) (keep : String → Bool) :
    Listed strKey (members.filter keep) where
  valid := fun m hm => hl.valid m (List.mem_of_mem_filter hm)
  nodup := hl.nodup.filter _
  capacity := (List.length_filter_le _ _).trans hl.capacity

theorem Listed.addFromText {editor : WhitelistEditor} (hl : Listed strKey editor.members)
    (rawText : String) : Listed strKey (editor.addFromText strKey rawText).members := by
  simp only [WhitelistEditor.addFromText]
  split
  · exact hl
  · exact hl.merge fun m hm => parseAddressLines_valid hm

theorem Listed.validMembers (hl : Listed strKey members) (hne : members ≠ []) :
    ValidMembers strKey members := ⟨hne, hl.capacity, hl.valid⟩

end Lists

section Edits
variable {strKey : StrKey} {page : CreatePage}

theorem offers_addToken {tokens : List WalletAsset} {token : WalletAsset} {tokenId : String} :
    Offers (addToken tokens token) tokenId ↔ Offers tokens tokenId ∨ token.contractId = tokenId := by
  rw [addToken]
  split
  · rename_i hthere
    obtain ⟨existing, hexisting, hsame⟩ := hthere
    exact ⟨.inl, fun hoffers => hoffers.elim id fun hid => ⟨existing, hexisting, hsame.trans hid⟩⟩
  · simp [Offers, or_and_right, exists_or]

theorem offers_foldl {options customTokens : List WalletAsset} {tokenId : String} :
    Offers (customTokens.foldl addToken options) tokenId ↔
      Offers options tokenId ∨ Offers customTokens tokenId := by
  induction customTokens generalizing options with
  | nil => simp [Offers]
  | cons token customTokens ih =>
    rw [List.foldl_cons, ih, offers_addToken, or_assoc]
    simp [Offers]

theorem offers_options {customTokens : List WalletAsset} {tokenId : String} :
    Offers (buildTokenOptions customTokens) tokenId ↔
      Offers knownTokens tokenId ∨ Offers customTokens tokenId := offers_foldl

/-- What stays true of the page: the chosen tokens are among the options, and both lists of addresses
can be whitelists; the one of the form is not empty. -/
structure CreatePage.Kept (strKey : StrKey) (page : CreatePage) : Prop where
  lot : Offers (buildTokenOptions page.customTokens) page.form.lotTokenId
  payment : Offers (buildTokenOptions page.customTokens) page.form.paymentTokenId
  members : Listed strKey page.form.whitelistMembers
  nonempty : page.form.whitelistMembers ≠ []
  editor : ∀ editor ∈ page.whitelistEditor, Listed strKey editor.members

theorem newPage_kept (hdemo : ∀ m ∈ demoWhitelistMembers, (strKey.decodeEd25519PublicKey m).isSome) :
    newPage.Kept strKey where
  lot := by decide
  payment := by decide
  members := ⟨hdemo, by decide, by decide⟩
  nonempty := by decide
  editor := by simp [newPage]

theorem CreatePage.Kept.edit (hk : page.Kept strKey) {change : WhitelistEditor → WhitelistEditor}
    (hchange : ∀ editor, Listed strKey editor.members → Listed strKey (change editor).members) :
    (page.edit change).Kept strKey where
  lot := hk.lot
  payment := hk.payment
  members := hk.members
  nonempty := hk.nonempty
  editor := fun editor heditor => by
    obtain ⟨before, hbefore, rfl⟩ := Option.map_eq_some_iff.mp heditor
    exact hchange before (hk.editor before hbefore)

theorem CreatePage.Kept.select (hk : page.Kept strKey) {customTokens : List WalletAsset}
    (hmore : ∀ tokenId, Offers page.customTokens tokenId → Offers customTokens tokenId)
    {tokenId : String} (hoffers : Offers (buildTokenOptions customTokens) tokenId)
    (target : PickerTarget) :
    CreatePage.Kept strKey { page with customTokens := customTokens
                                       form := page.form.selectToken tokenId target } := by
  have hstill : ∀ tokenId, Offers (buildTokenOptions page.customTokens) tokenId →
      Offers (buildTokenOptions customTokens) tokenId := fun tokenId hbefore =>
    offers_options.mpr ((offers_options.mp hbefore).imp_right (hmore tokenId))
  cases target with
  | lot => exact ⟨hoffers, hstill _ hk.payment, hk.members, hk.nonempty, hk.editor⟩
  | payment => exact ⟨hstill _ hk.lot, hoffers, hk.members, hk.nonempty, hk.editor⟩

theorem step_kept (page : CreatePage) (a : PageStep) (hk : page.Kept strKey) :
    (page.step strKey a).Kept strKey := by
  cases a with
  | typeLotAmount | typeMaxPrice | typeWindowMinutes | typeGraceHours | openTokenPicker =>
    exact ⟨hk.lot, hk.payment, hk.members, hk.nonempty, hk.editor⟩
  | selectLot tokenId | selectPayment tokenId =>
    simp only [CreatePage.step]
    split
    · exact hk.select (fun _ hbefore => hbefore) (by assumption) _
    · exact hk
  | addAndSelectToken token =>
    exact hk.select (fun _ hbefore => offers_addToken.mpr (.inl hbefore))
      (offers_options.mpr (.inr (offers_addToken.mpr (.inr rfl)))) _
  | editWhitelist =>
    refine ⟨hk.lot, hk.payment, hk.members, hk.nonempty, fun editor heditor => ?_⟩
    cases heditor
    exact hk.members
  | typeEntry text => exact hk.edit fun editor hl => hl
  | addEntry =>
    refine hk.edit fun editor hl => ?_
    split
    · exact hl
    · exact hl.addFromText _
  | upload text => exact hk.edit fun editor hl => hl.addFromText text
  | removeMember address => exact hk.edit fun editor hl => hl.filter _
  | confirmWhitelist =>
    simp only [CreatePage.step]
    split
    · rename_i editor heditor
      have hl := hk.editor editor heditor
      split
      · refine ⟨hk.lot, hk.payment, hk.members, hk.nonempty, fun noticed hnoticed => ?_⟩
        cases hnoticed
        exact hl
      · rename_i hne
        exact ⟨hk.lot, hk.payment, hl, hne, by simp⟩
    · exact hk
  | cancelWhitelist => exact ⟨hk.lot, hk.payment, hk.members, hk.nonempty, by simp [CreatePage.step]⟩

theorem page_kept (hdemo : ∀ m ∈ demoWhitelistMembers, (strKey.decodeEd25519PublicKey m).isSome)
    (steps : List PageStep) : (Runs.run (CreatePage.step strKey) newPage steps).Kept strKey :=
  Runs.run_invariant' step_kept (newPage_kept hdemo) steps

end Edits

section Checks
variable {strKey : StrKey} {hash : List ℤ → ℤ} {form : CreateForm}

def Written (text : String) (n : ℕ) : Prop := BigIntText.parse text = some (n : ℤ)

theorem parsePositiveInt_written {text label : String} {value : Option ℕ}
    (hparse : parsePositiveInt text label = .ok value) :
    ∃ n, Written text n ∧ 0 < n ∧ Double.ofNat n = value := by
  simp only [parsePositiveInt, bind_eq_ok, ensure_eq_ok, toBigInt_eq_ok, pure_eq_ok, exists_const] at hparse
  obtain ⟨⟨hne, hdigits⟩, number, hnumber, hpositive, rfl⟩ := hparse
  have hwritten : BigIntText.parse text = some number := by
    rw [← hnumber, BigIntText.parse, BigIntText.parse, String.toList_ofList, BigIntText.trim_trim]
  have hnonneg : 0 ≤ number := by
    rw [BigIntText.parse, BigIntText.literal_digits hne (List.all_eq_true.mp hdigits)] at hwritten
    revert hwritten
    cases BigIntText.trim text.toList with
    | nil => exact fun he => by cases he
    | cons c cs =>
      intro he
      obtain ⟨n, -, rfl⟩ := Option.map_eq_some_iff.mp he
      exact Int.natCast_nonneg n
  obtain ⟨n, rfl⟩ := Int.eq_ofNat_of_zero_le hnonneg
  refine ⟨n, hwritten, Nat.pos_of_ne_zero fun hzero => hpositive ?_, rfl⟩
  subst hzero
  exact Double.ofNat_exact (by norm_num)

/-- Sixty seconds for every minute, unless the sum is too large for a double to be exact. -/
theorem deadlineAfter_exact {nowSeconds minutes : ℕ} (hsmall : nowSeconds + minutes * 60 < 2 ^ 53) :
    deadlineAfter nowSeconds (Double.ofNat minutes) = some (nowSeconds + minutes * 60) := by
  have hminutes : Double.ofNat minutes = some minutes := Double.ofNat_exact (by omega)
  have hwindow : Double.ofNat (minutes * 60) = some (minutes * 60) := Double.ofNat_exact (by omega)
  simp only [deadlineAfter, hminutes, hwindow, Option.bind_eq_bind, Option.bind_some,
    Double.ofNat_exact hsmall]

theorem lt_deadlineAfter {nowSeconds minutes deadline : ℕ} (hnow : nowSeconds < 2 ^ 53)
    (hpositive : 0 < minutes)
    (hdeadline : deadlineAfter nowSeconds (Double.ofNat minutes) = some deadline) :
    nowSeconds < deadline := by
  simp only [deadlineAfter, Option.bind_eq_bind, Option.bind_eq_some_iff] at hdeadline
  obtain ⟨rounded, hrounded, window, hwindow, hsum⟩ := hdeadline
  have hminutes : 0 < rounded := Double.lt_ofNat (by norm_num) hpositive hrounded
  have hlength : 0 < window := Double.lt_ofNat (by norm_num) (by omega) hwindow
  exact Double.lt_ofNat hnow (by omega) hsum

theorem graceSeconds_exact {hours : ℕ} (hsmall : hours * 3600 < 2 ^ 53) :
    graceSeconds (Double.ofNat hours) = some (hours * 3600) := by
  have hhours : Double.ofNat hours = some hours := Double.ofNat_exact (by omega)
  simp only [graceSeconds, hhours, Option.bind_eq_bind, Option.bind_some, Double.ofNat_exact hsmall]

theorem graceSeconds_pos {hours grace : ℕ} (hpositive : 0 < hours)
    (hgrace : graceSeconds (Double.ofNat hours) = some grace) : 0 < grace := by
  simp only [graceSeconds, Option.bind_eq_bind, Option.bind_eq_some_iff] at hgrace
  obtain ⟨rounded, hrounded, hgrace⟩ := hgrace
  have hhours : 0 < rounded := Double.lt_ofNat (by norm_num) hpositive hrounded
  exact Double.lt_ofNat (by norm_num) (by omega) hgrace

/-- A form that runCreate takes, with the numbers in it. -/
structure CreateForm.Accepted (form : CreateForm) (lotAmount maxPrice : ℤ) (minutes hours : ℕ) :
    Prop where
  lot : parsePositiveBig form.lotAmountText "Lot amount" = .ok lotAmount
  cap : parsePositiveBig form.maxPriceText "Max price" = .ok maxPrice
  fits : maxPrice ≤ u64Max
  window : parsePositiveInt form.windowMinutesText "Bid window" = .ok (Double.ofNat minutes)
  minutes : Written form.windowMinutesText minutes ∧ 0 < minutes
  grace : parsePositiveInt form.graceHoursText "Grace period" = .ok (Double.ofNat hours)
  hours : Written form.graceHoursText hours ∧ 0 < hours
  tokens : form.lotTokenId ≠ form.paymentTokenId

theorem checkForm_eq_ok {values : FormValues} : checkForm form = .ok values ↔
    ∃ minutes hours, form.Accepted values.lotAmount values.maxPrice minutes hours ∧
      values.windowMinutes = Double.ofNat minutes ∧ values.graceHours = Double.ofNat hours := by
  simp only [checkForm, bind_eq_ok, ensure_eq_ok, pure_eq_ok, exists_const]
  constructor
  · intro hcheck
    obtain ⟨lotAmount, hlot, maxPrice, hcap, hfits, window, hwindow, grace, hgrace, htokens, hvalues⟩ :=
      hcheck
    obtain ⟨minutes, hminutes, hpositive, rfl⟩ := parsePositiveInt_written hwindow
    obtain ⟨hours, hhours, hpositive', rfl⟩ := parsePositiveInt_written hgrace
    rw [← hvalues]
    exact ⟨minutes, hours, ⟨hlot, hcap, hfits, hwindow, ⟨hminutes, hpositive⟩, hgrace,
      ⟨hhours, hpositive'⟩, htokens⟩, rfl, rfl⟩
  · intro haccepted
    obtain ⟨minutes, hours, ha, hminutes, hhours⟩ := haccepted
    refine ⟨_, ha.lot, _, ha.cap, ha.fits, _, ha.window, _, ha.grace, ha.tokens, ?_⟩
    rw [← hminutes, ← hhours]

theorem parsePositive_pos {notWhole notPositive amountText : String} {value : ℤ}
    (hparse : parsePositive notWhole notPositive amountText = .ok value) : 0 < value := by
  simp only [parsePositive, bind_eq_ok, ensure_eq_ok, pure_eq_ok, exists_const] at hparse
  obtain ⟨-, parsed, -, hpositive, rfl⟩ := hparse
  exact hpositive

theorem CreateForm.Accepted.lot_pos {lotAmount maxPrice : ℤ} {minutes hours : ℕ}
    (ha : form.Accepted lotAmount maxPrice minutes hours) : 0 < lotAmount := parsePositive_pos ha.lot

theorem CreateForm.Accepted.cap_pos {lotAmount maxPrice : ℤ} {minutes hours : ℕ}
    (ha : form.Accepted lotAmount maxPrice minutes hours) : 0 < maxPrice := parsePositive_pos ha.cap

end Checks

section Call
variable {strKey : StrKey} {hash : List ℤ → ℤ} {form : CreateForm} {params : CreateAuctionParams}
  {registered : ℤ → List String → Except CreateAuctionFailure Unit} {nowSeconds : ℕ}
  {address : String} {readAddress : String → Option Address} {args : CreateArgs}

def CreateForm.root (strKey : StrKey) (hash : List ℤ → ℤ) (form : CreateForm) : ℤ :=
  if form.whitelistMembers = demoWhitelistMembers then demoWhitelistRoot
  else (memberTree strKey hash form.whitelistMembers).root

theorem rootFor_eq_ok {root : ℤ} (hm : ValidMembers strKey form.whitelistMembers) :
    rootFor strKey hash registered form.whitelistMembers = .ok root ↔
      root = form.root strKey hash ∧ (form.whitelistMembers = demoWhitelistMembers ∨
        registered root form.whitelistMembers = .ok ()) := by
  simp only [rootFor, CreateForm.root, computeWhitelistRoot_valid hm]
  split
  · rename_i hdemo
    simp [hdemo, eq_comm]
  · constructor
    · intro hroot
      split at hroot
      · cases hroot
      · cases hroot
        exact ⟨rfl, .inr (by assumption)⟩
    · intro hroot
      obtain ⟨rfl, hdemo | hregistered⟩ := hroot
      · contradiction
      · rw [hregistered]

theorem mapError_eq_ok {ε ε' α : Type} {f : ε → ε'} {x : Except ε α} {a : α} :
    x.mapError f = .ok a ↔ x = .ok a := by
  cases x with
  | error e => simp [Except.mapError]
  | ok b => simp [Except.mapError]

theorem runCreate_eq_ok (hm : ValidMembers strKey form.whitelistMembers) :
    runCreate strKey hash registered nowSeconds (.connected address) form = .ok params ↔
      ∃ lotAmount maxPrice minutes hours deadline grace,
        form.Accepted lotAmount maxPrice minutes hours ∧
        (form.whitelistMembers = demoWhitelistMembers ∨
          registered (form.root strKey hash) form.whitelistMembers = .ok ()) ∧
        deadlineAfter nowSeconds (Double.ofNat minutes) = some deadline ∧
        graceSeconds (Double.ofNat hours) = some grace ∧
        params = ⟨address, form.lotTokenId, lotAmount, form.paymentTokenId, maxPrice, deadline, grace,
          form.root strKey hash, demoOperatorEncPubkey⟩ := by
  simp only [runCreate, bind_eq_ok, mapError_eq_ok, okOr_eq_ok, pure_eq_ok, checkForm_eq_ok,
    rootFor_eq_ok hm]
  constructor
  · intro hrun
    obtain ⟨⟨lotAmount, maxPrice, _, _⟩, ⟨minutes, hours, ha, rfl, rfl⟩, _, ⟨rfl, hregistered⟩, deadline,
      hdeadline, grace, hgrace, rfl⟩ := hrun
    exact ⟨lotAmount, maxPrice, minutes, hours, deadline, grace, ha, hregistered, hdeadline, hgrace, rfl⟩
  · intro hrun
    obtain ⟨lotAmount, maxPrice, minutes, hours, deadline, grace, ha, hregistered, hdeadline, hgrace,
      rfl⟩ := hrun
    exact ⟨⟨lotAmount, maxPrice, _, _⟩, ⟨minutes, hours, ha, rfl, rfl⟩, _, ⟨rfl, hregistered⟩, deadline,
      hdeadline, grace, hgrace, rfl⟩

theorem args_eq_some : params.args readAddress = some args ↔
    ∃ seller rwaToken paymentToken, readAddress params.sellerAddress = some seller ∧
      readAddress params.rwaToken = some rwaToken ∧
      readAddress params.paymentToken = some paymentToken ∧
      (params.lotAmount < 2 ^ 127 ∧ params.maxPrice < 2 ^ 127 ∧ params.commitDeadline ≤ u64Max ∧
        params.gracePeriod ≤ u64Max ∧ 0 ≤ params.whitelistRoot ∧ params.whitelistRoot < 2 ^ 256) ∧
      args = ⟨seller, rwaToken, params.lotAmount, paymentToken, params.maxPrice,
        params.commitDeadline, params.gracePeriod, .ofInt 256 params.whitelistRoot,
        params.operatorEncPubkey⟩ := by
  simp only [CreateAuctionParams.args, Option.bind_eq_bind, Option.bind_eq_some_iff,
    Option.ite_none_right_eq_some, Option.some.injEq]
  constructor
  · intro hargs
    obtain ⟨seller, hseller, rwaToken, hrwa, paymentToken, hpayment, hfits, rfl⟩ := hargs
    exact ⟨seller, rwaToken, paymentToken, hseller, hrwa, hpayment, hfits, rfl⟩
  · intro hargs
    obtain ⟨seller, rwaToken, paymentToken, hseller, hrwa, hpayment, hfits, rfl⟩ := hargs
    exact ⟨seller, hseller, rwaToken, hrwa, paymentToken, hpayment, hfits, rfl⟩

structure CreateForm.FillsIn (strKey : StrKey) (hash : List ℤ → ℤ)
    (readAddress : String → Option Address) (nowSeconds : ℕ) (address : String) (form : CreateForm)
    (lotAmount maxPrice : ℤ) (minutes hours : ℕ) (args : CreateArgs) : Prop where
  seller : readAddress address = some args.seller
  rwaToken : readAddress form.lotTokenId = some args.rwaToken
  paymentToken : readAddress form.paymentTokenId = some args.paymentToken
  lot : args.lotAmount = lotAmount
  cap : args.maxPrice = maxPrice
  deadline : nowSeconds < args.commitDeadline ∧
    (nowSeconds + minutes * 60 < 2 ^ 53 → args.commitDeadline = nowSeconds + minutes * 60)
  grace : 0 < args.gracePeriod ∧ (hours * 3600 < 2 ^ 53 → args.gracePeriod = hours * 3600)
  root : (args.whitelistRoot.toNat : ℤ) = form.root strKey hash
  operator : args.operatorEncPubkey = demoOperatorEncPubkey

theorem call_fillsIn (hm : ValidMembers strKey form.whitelistMembers) (hnow : nowSeconds < 2 ^ 53)
    (hrun : runCreate strKey hash registered nowSeconds (.connected address) form = .ok params)
    (hargs : params.args readAddress = some args) :
    ∃ lotAmount maxPrice minutes hours, form.Accepted lotAmount maxPrice minutes hours ∧
      form.FillsIn strKey hash readAddress nowSeconds address lotAmount maxPrice
        minutes hours args := by
  obtain ⟨lotAmount, maxPrice, minutes, hours, deadline, grace, ha, -, hdeadline, hgrace, rfl⟩ :=
    (runCreate_eq_ok hm).mp hrun
  obtain ⟨seller, rwaToken, paymentToken, hseller, hrwa, hpayment, ⟨-, -, -, -, hrange⟩, rfl⟩ :=
    args_eq_some.mp hargs
  refine ⟨lotAmount, maxPrice, minutes, hours, ha, hseller, hrwa, hpayment, rfl, rfl, ?_, ?_,
    commitment_word hrange, rfl⟩
  · refine ⟨lt_deadlineAfter hnow ha.minutes.2 hdeadline, fun hsmall => ?_⟩
    rw [deadlineAfter_exact hsmall] at hdeadline
    exact (Option.some.inj hdeadline).symm
  · refine ⟨graceSeconds_pos ha.hours.2 hgrace, fun hsmall => ?_⟩
    rw [graceSeconds_exact hsmall] at hgrace
    exact (Option.some.inj hgrace).symm

/-- Of all that create_auction checks, arguments like these fail only the deadline. -/
theorem createAuction_refuses {W : Type} (h : Host W) (s : State W) {signers : List Address}
    (hsigned : args.seller ∈ signers) (hlot : 0 < args.lotAmount) (hcap : 0 < args.maxPrice)
    (hfits : args.maxPrice ≤ u64Max) (hgrace : 0 < args.gracePeriod) (e : AuctionError) :
    exec h signers (.createAuction args) s = .error (.error e) ↔
      e = .DeadlineNotInFuture ∧ args.commitDeadline ≤ s.timestamp := by
  have htransfer : ∀ (m : TokenMove) (s : State W), transfer h m s ≠ .error (.error e) := by
    intro m s
    rw [transfer]
    split <;> simp
  simp only [exec, map_eq_error, createAuction, requireAuth, check, bind_eq_error, ensure_eq_error,
    ensure_eq_ok, htransfer, hsigned, hlot, hcap, hfits, hgrace.ne', ne_eq, pure, Except.pure]
  simp [eq_comm, and_comm]

theorem created_kept {W : Type} {h : Host W} {g : Genesis W} {earlier : List (Action W)}
    {after : State W}
    (he : exec h [args.seller] (.createAuction args) (runFrom h g earlier) = .ok after) :
    ∃ k, ∀ later, ∃ auction, (runFrom h g (earlier ++ .call [args.seller]
      (.createAuction args) :: later)).auctions k = some auction ∧
        auction = { newAuction args with status := auction.status, bids := auction.bids,
                                         lotReclaimed := auction.lotReclaimed } := by
  have hp := createAuction_progress (runFrom_valid g earlier) he
  have hafter : runFrom h g (earlier ++ [.call [args.seller] (.createAuction args)]) = after := by
    rw [runFrom_append, Runs.run_cons, Runs.run_nil, step_call_ok he]
  have hnew := hp.auction_at
  rw [← hafter] at hnew
  refine ⟨Call.auctionId (runFrom h g earlier) (.createAuction args), fun later => ?_⟩
  obtain ⟨current, hsome, hlead⟩ := (followed_run g _ later hnew).record
  rw [List.append_assoc, List.singleton_append] at hsome
  exact ⟨current, hsome, hlead.terms⟩

structure CallStands {W : Type} (h : Host W) (g : Genesis W) (args : CreateArgs) : Prop where
  refused : ∀ (s : State W) (signers : List Address), args.seller ∈ signers → ∀ e,
    exec h signers (.createAuction args) s = .error (.error e) ↔
      e = .DeadlineNotInFuture ∧ args.commitDeadline ≤ s.timestamp
  confirmed : ∀ (before : List (Action W)) sequenceOf (steps : List (NetworkStep W)),
    let network := Runs.run (networkStep h) (startNetwork h g before sequenceOf) steps
    ∀ attempt ∈ network.attempts, attempt.submission = .createAuction args →
      ∀ outcome txHash, attempt.stage = .returned outcome → createdStage outcome = .created txHash →
        ∃ k actions, network.chain = runFrom h g actions ∧
          ∀ later, ∃ auction, (runFrom h g (actions ++ later)).auctions k = some auction ∧
            auction = { newAuction args with status := auction.status, bids := auction.bids,
                                             lotReclaimed := auction.lotReclaimed }

theorem created_confirmed {W : Type} {h : Host W} {g : Genesis W} (before : List (Action W))
    (sequenceOf : Address → ℕ) (steps : List (NetworkStep W)) {attempt : Attempt W} {txHash : String}
    (hattempt : attempt ∈
      (Runs.run (networkStep h) (startNetwork h g before sequenceOf) steps).attempts)
    (hsame : attempt.submission = .createAuction args)
    (hreceipt : attempt.stage = .returned (.ok txHash)) :
    ∃ k actions, (Runs.run (networkStep h) (startNetwork h g before sequenceOf) steps).chain =
        runFrom h g actions ∧
      ∀ later, ∃ auction, (runFrom h g (actions ++ later)).auctions k = some auction ∧
        auction = { newAuction args with status := auction.status, bids := auction.bids,
                                         lotReclaimed := auction.lotReclaimed } := by
  have hkept : ∀ steps, (Runs.run (networkStep h) (startNetwork h g before sequenceOf) steps).Kept h :=
    fun steps => Runs.run_invariant' networkStep_kept (startNetwork_kept g before sequenceOf) steps
  obtain ⟨more, hran⟩ := network_ran (hkept []) (startNetwork_ran g before sequenceOf) steps
  obtain ⟨earlier, rest, after, hactions, he⟩ := receipt_called (hkept steps) hran hattempt hreceipt
  rw [hsame] at hactions he
  obtain ⟨k, hstored⟩ := created_kept he
  refine ⟨k, before ++ more, hran.chain, fun later => ?_⟩
  have hauction := hstored (rest ++ later)
  rw [hactions, List.append_assoc, List.cons_append]
  exact hauction

theorem CreateForm.Accepted.stands {W : Type} (h : Host W) (g : Genesis W) {lotAmount maxPrice : ℤ}
    {minutes hours : ℕ} (ha : form.Accepted lotAmount maxPrice minutes hours)
    (hf : form.FillsIn strKey hash readAddress nowSeconds address lotAmount maxPrice minutes hours
      args) : CallStands h g args where
  refused := fun s signers hsigned => by
    have hlot : 0 < args.lotAmount := hf.lot.symm ▸ ha.lot_pos
    have hcap : 0 < args.maxPrice := hf.cap.symm ▸ ha.cap_pos
    have hfits : args.maxPrice ≤ u64Max := hf.cap.symm ▸ ha.fits
    exact createAuction_refuses h s hsigned hlot hcap hfits hf.grace.1
  confirmed := by
    intro before sequenceOf steps network attempt hattempt hsame outcome txHash hreturned hcreated
    cases outcome with
    | error failure => cases hcreated
    | ok hash =>
      cases hcreated
      exact created_confirmed before sequenceOf steps hattempt hsame hreturned

theorem root_fits {poseidon : Poseidon} (hm : ValidMembers strKey form.whitelistMembers) :
    0 ≤ form.root strKey (poseidonHasher poseidon) ∧
      form.root strKey (poseidonHasher poseidon) < 2 ^ 256 := by
  rw [CreateForm.root]
  split
  · decide
  · refine root_range poseidon _ (by decide) ?_
    rw [List.length_map]
    exact hm.capacity

theorem CreateForm.Accepted.submits {lotAmount maxPrice : ℤ} {minutes hours : ℕ}
    (ha : form.Accepted lotAmount maxPrice minutes hours)
    (hm : ValidMembers strKey form.whitelistMembers)
    (hregistered : form.whitelistMembers = demoWhitelistMembers ∨
      registered (form.root strKey hash) form.whitelistMembers = .ok ())
    (hroot : 0 ≤ form.root strKey hash ∧ form.root strKey hash < 2 ^ 256)
    (hread : ∀ text ∈ [address, form.lotTokenId, form.paymentTokenId], (readAddress text).isSome)
    (hlot : lotAmount < 2 ^ 127) (hwindow : nowSeconds + minutes * 60 < 2 ^ 53)
    (hgrace : hours * 3600 < 2 ^ 53) :
    ∃ params args, runCreate strKey hash registered nowSeconds (.connected address) form = .ok params ∧
      params.args readAddress = some args := by
  obtain ⟨seller, hseller⟩ := Option.isSome_iff_exists.mp (hread address (by simp))
  obtain ⟨rwaToken, hrwa⟩ := Option.isSome_iff_exists.mp (hread form.lotTokenId (by simp))
  obtain ⟨paymentToken, hpayment⟩ := Option.isSome_iff_exists.mp (hread form.paymentTokenId (by simp))
  have hfits : maxPrice < 2 ^ 127 ∧ nowSeconds + minutes * 60 ≤ u64Max ∧ hours * 3600 ≤ u64Max := by
    have hmax : u64Max = 2 ^ 64 - 1 := by norm_num [u64Max]
    have hcap := ha.fits
    omega
  exact ⟨_, _, (runCreate_eq_ok hm).mpr ⟨lotAmount, maxPrice, minutes, hours, _, _, ha, hregistered,
    deadlineAfter_exact hwindow, graceSeconds_exact hgrace, rfl⟩,
    args_eq_some.mpr ⟨seller, rwaToken, paymentToken, hseller, hrwa, hpayment,
      ⟨hlot, hfits.1, hfits.2.1, hfits.2.2, hroot⟩, rfl⟩⟩

end Call

/-- However the page was edited, its list can be a whitelist; a call that comes from it says what the
seller typed; of what the contract checks it can only have missed its own deadline; and when the page
says that the auction was created, the contract has one with these terms for good. -/
theorem created_as_typed {W : Type} (h : Host W) (g : Genesis W) (strKey : StrKey)
    (hdemo : ∀ m ∈ demoWhitelistMembers, (strKey.decodeEd25519PublicKey m).isSome)
    (hash : List ℤ → ℤ) (readAddress : String → Option Address)
    (registered : ℤ → List String → Except CreateAuctionFailure Unit) (nowSeconds : ℕ)
    (hnow : nowSeconds < 2 ^ 53) (address : String) (steps : List PageStep) :
    let form := (Runs.run (CreatePage.step strKey) newPage steps).form
    ValidMembers strKey form.whitelistMembers ∧ form.whitelistMembers.Nodup ∧
      ∀ params args,
        runCreate strKey hash registered nowSeconds (.connected address) form = .ok params →
        params.args readAddress = some args →
        ∃ lotAmount maxPrice minutes hours, form.Accepted lotAmount maxPrice minutes hours ∧
          form.FillsIn strKey hash readAddress nowSeconds address lotAmount maxPrice minutes hours
            args ∧
          CallStands h g args := by
  intro form
  have hk := page_kept hdemo steps
  have hm := hk.members.validMembers hk.nonempty
  refine ⟨hm, hk.members.nodup, fun params args hrun hargs => ?_⟩
  obtain ⟨lotAmount, maxPrice, minutes, hours, ha, hf⟩ := call_fillsIn hm hnow hrun hargs
  exact ⟨lotAmount, maxPrice, minutes, hours, ha, hf, ha.stands h g hf⟩

/-- However the page was edited, once its checks pass the call is made: the list has a root, and
nothing throws on a lot that fits its type and on times that a double holds exactly. -/
theorem accepted_form_submits (strKey : StrKey)
    (hdemo : ∀ m ∈ demoWhitelistMembers, (strKey.decodeEd25519PublicKey m).isSome)
    (poseidon : Poseidon) (readAddress : String → Option Address)
    (registered : ℤ → List String → Except CreateAuctionFailure Unit) (nowSeconds : ℕ)
    (address : String) (steps : List PageStep) (lotAmount maxPrice : ℤ) (minutes hours : ℕ) :
    let form := (Runs.run (CreatePage.step strKey) newPage steps).form
    form.Accepted lotAmount maxPrice minutes hours →
    (form.whitelistMembers = demoWhitelistMembers ∨
      registered (form.root strKey (poseidonHasher poseidon)) form.whitelistMembers = .ok ()) →
    (∀ text ∈ [address, form.lotTokenId, form.paymentTokenId], (readAddress text).isSome) →
    lotAmount < 2 ^ 127 → nowSeconds + minutes * 60 < 2 ^ 53 → hours * 3600 < 2 ^ 53 →
      ∃ params args, runCreate strKey (poseidonHasher poseidon) registered nowSeconds
          (.connected address) form = .ok params ∧ params.args readAddress = some args := by
  intro form ha hregistered hread hlot hwindow hgrace
  have hk := page_kept hdemo steps
  have hm := hk.members.validMembers hk.nonempty
  exact ha.submits hm hregistered (root_fits hm) hread hlot hwindow hgrace

section Sample

def readSep23 (text : String) : Option Address :=
  let bytes := write 256 35 (read 32 (text.toList.map fun c => alphabet.idxOf c))
  let key : Key := Vector.ofFn fun i => UInt8.ofNat (bytes.getD (i + 1) 0)
  if text = sep23.encode (.account key) then some (.account key)
  else if text = sep23.encode (.contract key) then some (.contract key)
  else none

def samplePage : List PageStep :=
  [.typeLotAmount " 1,250 ", .selectLot "CDIKPNCUSBHSTGD5GZKKHPK6BVE732BUCKQ3EPLYMSLUSHEZPAFTNPVX",
    .selectPayment "CDUTXMK5MGOXSBUPZNQZ6J5RCQEVC4MOMYW72WXVUWV5W7OCXJIGJUGN", .editWhitelist,
    .typeEntry (sep23.encode bidder ++ "\n no address \r\n"), .addEntry, .confirmWhitelist]

def registerOk (_root : ℤ) (_members : List String) : Except CreateAuctionFailure Unit := .ok ()

theorem registerOk_ok (root : ℤ) (members : List String) : registerOk root members = .ok () := rfl

theorem samplePage_accepted :
    (Runs.run (CreatePage.step sep23) newPage samplePage).form.Accepted 1250 50000 30 24 where
  lot := by decide +kernel
  cap := by decide +kernel
  fits := by decide
  window := by decide +kernel
  minutes := ⟨by unfold Written; decide +kernel, by decide⟩
  grace := by decide +kernel
  hours := ⟨by unfold Written; decide +kernel, by decide⟩
  tokens := by decide +kernel

theorem demo_decodes : ∀ m ∈ demoWhitelistMembers, (sep23.decodeEd25519PublicKey m).isSome := by
  decide +kernel

theorem samplePage_read : let form := (Runs.run (CreatePage.step sep23) newPage samplePage).form
    ∀ text ∈ [sep23.encode bidder, form.lotTokenId, form.paymentTokenId], (readSep23 text).isSome := by
  decide +kernel

end Sample

/-- The seller adds a wallet to the demo list; the call for 1,250 of the lot is made at second 100. -/
theorem accepted_form_submits_at :
    let form := (Runs.run (CreatePage.step sep23) newPage samplePage).form
    ∃ params args, runCreate sep23 (poseidonHasher firstInput) registerOk 100
      (.connected (sep23.encode bidder)) form = .ok params ∧ params.args readSep23 = some args :=
  accepted_form_submits sep23 demo_decodes firstInput readSep23 registerOk 100
    (sep23.encode bidder) samplePage 1250 50000 30 24 samplePage_accepted
    (.inr (registerOk_ok _ _)) samplePage_read (by norm_num) (by norm_num) (by norm_num)

/-- Half an hour after second 100, the contract takes no auction of that call. -/
theorem created_as_typed_at :
    let form := (Runs.run (CreatePage.step sep23) newPage samplePage).form
    ∃ params args seller, runCreate sep23 (poseidonHasher firstInput) registerOk 100
      (.connected (sep23.encode bidder)) form = .ok params ∧
    params.args readSep23 = some args ∧ args.seller = seller ∧ args.lotAmount = 1250 ∧
    exec markHost [seller] (.createAuction args) (runFrom markHost markGenesis [.closeLedger 1900 2]) =
      .error (.error .DeadlineNotInFuture) := by
  obtain ⟨hm, -, hcalls⟩ := created_as_typed markHost markGenesis sep23 demo_decodes
    (poseidonHasher firstInput) readSep23 registerOk 100 (by norm_num) (sep23.encode bidder) samplePage
  have hsmall : 100 + 30 * 60 < 2 ^ 53 := by norm_num
  obtain ⟨params, args, hrun, hargs⟩ := samplePage_accepted.submits hm (.inr (registerOk_ok _ _))
    (root_fits hm) samplePage_read (by norm_num) hsmall (by norm_num)
  obtain ⟨lotAmount, maxPrice, minutes, hours, ha, hf, hstands⟩ := hcalls params args hrun hargs
  have hlot : lotAmount = 1250 := by
    have hparse := samplePage_accepted.lot
    rw [ha.lot] at hparse
    exact Except.ok.inj hparse
  have hminutes : minutes = 30 := by
    have hwritten := samplePage_accepted.minutes.1
    rw [Written, ha.minutes.1] at hwritten
    exact Int.ofNat_inj.mp (Option.some.inj hwritten)
  have hdeadline : args.commitDeadline = 1900 := by
    rw [hf.deadline.2 (by omega), hminutes]
  exact ⟨params, args, args.seller, hrun, hargs, rfl, hf.lot.trans hlot,
    (hstands.refused _ _ (List.mem_singleton.mpr rfl) _).mpr ⟨rfl, hdeadline.trans_le (by decide)⟩⟩

end SealedStellar.Web

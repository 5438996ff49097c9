import SealedStellar.ListQuery
import SealedStellar.Lib.FormUrlEncoded

/-! The view of the list page in its URL: readListView and writeListView of auctions-list-view.ts, and
useAuctionsListView. -/
namespace SealedStellar.Web
open Indexer FormUrlEncoded

section Codec

inductive AuctionDensity where
  | comfortable | compact
  deriving DecidableEq

structure DenseListView extends AuctionsListView where
  density : AuctionDensity

def defaultView : DenseListView := ⟨⟨.all, "", none, .closing⟩, .comfortable⟩

def AuctionSegment.name : AuctionSegment → String
  | .all => "all"
  | .live => "live"
  | .closing => "closing"
  | .awaiting => "awaiting"
  | .settled => "settled"
  | .yours => "yours"

def AuctionSort.name : AuctionSort → String
  | .closing => "closing"
  | .newest => "newest"
  | .bids => "bids"

def AuctionDensity.name : AuctionDensity → String
  | .comfortable => "comfortable"
  | .compact => "compact"

def segments : List AuctionSegment := [.all, .live, .closing, .awaiting, .settled, .yours]
def sorts : List AuctionSort := [.closing, .newest, .bids]
def densities : List AuctionDensity := [.comfortable, .compact]

def parseKnown {α : Type} (known : List α) (name : α → String) (default : α)
    (rawValue : Option String) : α :=
  (known.find? fun a => rawValue = some (name a)).getD default

def parseSegment : Option String → AuctionSegment :=
  parseKnown segments AuctionSegment.name defaultView.segment

def parseSort : Option String → AuctionSort := parseKnown sorts AuctionSort.name defaultView.sort

def parseDensity : Option String → AuctionDensity :=
  parseKnown densities AuctionDensity.name defaultView.density

def readListView (searchParams : QueryString) : DenseListView :=
  let assetValue := ((searchParams.query "asset").map trim).getD ""
  { segment := parseSegment (searchParams.query "seg")
    search := ((searchParams.query "q").map trim).getD defaultView.search
    assetSymbol := if assetValue = "" then none else some assetValue
    sort := parseSort (searchParams.query "sort")
    density := parseDensity (searchParams.query "density") }

structure ViewEdit where
  segment : Option AuctionSegment
  search : Option String
  assetSymbol : Option (Option String)
  sort : Option AuctionSort
  density : Option AuctionDensity

def DenseListView.edited (view : DenseListView) (next : ViewEdit) : DenseListView where
  segment := next.segment.getD view.segment
  search := next.search.getD view.search
  assetSymbol := next.assetSymbol.getD view.assetSymbol
  sort := next.sort.getD view.sort
  density := next.density.getD view.density

/-- `params.set(name, value)` of a name that is not there yet, if there is a value. -/
def written (name : String) (value : Option String) : QueryString :=
  (value.map fun text => (name, text)).toList

def unlessDefault {α : Type} [DecidableEq α] (default : α) (name : α → String) (a : α) :
    Option String :=
  if a = default then none else some (name a)

def writeView (merged : DenseListView) : QueryString :=
  written "seg" (unlessDefault defaultView.segment AuctionSegment.name merged.segment) ++
  written "q" (unlessDefault defaultView.search id merged.search) ++
  written "asset" merged.assetSymbol ++
  written "sort" (unlessDefault defaultView.sort AuctionSort.name merged.sort) ++
  written "density" (unlessDefault defaultView.density AuctionDensity.name merged.density)

def writeListView (current : QueryString) (next : ViewEdit) : QueryString :=
  writeView ((readListView current).edited next)

variable (repair : List UInt8 → String)

def shownView (query : List UInt8) : DenseListView := readListView (parse (textOf repair) query)

/-- setView, by the query it leaves in the URL; the next edit comes after the page has shown it. -/
def setView (query : List UInt8) (next : ViewEdit) : List UInt8 :=
  serialize utf8 (writeListView (parse (textOf repair) query) next)

end Codec

section RoundTrip

/-- What a URL can hold of a view: the texts are trimmed, and no asset is asked for by an empty one. -/
def DenseListView.tidy (view : DenseListView) : DenseListView where
  segment := view.segment
  search := trim view.search
  assetSymbol := trimmed view.assetSymbol
  sort := view.sort
  density := view.density

theorem parseSegment_written (segment : AuctionSegment) :
    parseSegment (unlessDefault defaultView.segment AuctionSegment.name segment) = segment := by
  cases segment <;> decide

theorem parseSort_written (sort : AuctionSort) :
    parseSort (unlessDefault defaultView.sort AuctionSort.name sort) = sort := by
  cases sort <;> decide

theorem parseDensity_written (density : AuctionDensity) :
    parseDensity (unlessDefault defaultView.density AuctionDensity.name density) = density := by
  cases density <;> decide

theorem trim_empty : trim "" = "" := by decide

theorem search_written (search : String) :
    ((unlessDefault defaultView.search id search).map trim).getD defaultView.search = trim search := by
  rw [unlessDefault]
  split
  · rename_i hempty
    rw [hempty]
    exact trim_empty.symm
  · rfl

theorem asset_written (assetSymbol : Option String) :
    (if (assetSymbol.map trim).getD "" = "" then none else some ((assetSymbol.map trim).getD "")) =
      trimmed assetSymbol := by
  cases assetSymbol <;> rfl

theorem read_writeView (view : DenseListView) : readListView (writeView view) = view.tidy := by
  simp only [readListView, writeView, written, query_append, query_optional, String.reduceEq, if_true,
    if_false, Option.or_none, Option.none_or]
  rw [parseSegment_written, search_written, asset_written, parseSort_written, parseDensity_written]
  rfl

theorem trimmed_trimmed (text : Option String) : trimmed (trimmed text) = trimmed text := by
  cases text with
  | none => rfl
  | some text =>
    by_cases hempty : trim text = ""
    · simp [trimmed, hempty]
    · simp [trimmed, hempty, trim_trim]

theorem readListView_tidy (searchParams : QueryString) :
    (readListView searchParams).tidy = readListView searchParams := by
  have hsearch : trim (((searchParams.query "q").map trim).getD "") =
      ((searchParams.query "q").map trim).getD "" := by
    cases searchParams.query "q" with
    | none => exact trim_empty
    | some text => exact trim_trim text
  have hdefault : defaultView.search = "" := rfl
  simp only [DenseListView.tidy, readListView, asset_written, trimmed_trimmed, hdefault, hsearch]

theorem tidy_edited (view : DenseListView) (next : ViewEdit) :
    (view.tidy.edited next).tidy = (view.edited next).tidy := by
  obtain ⟨segment, search, assetSymbol, sort, density⟩ := next
  cases search <;> cases assetSymbol <;>
    simp only [DenseListView.tidy, DenseListView.edited, Option.getD_none, Option.getD_some, trim_trim,
      trimmed_trimmed]

/-- Trimming makes no edit end elsewhere than in the default view. -/
theorem edited_default {view : DenseListView} {next : ViewEdit}
    (hedited : view.edited next = defaultView) : view.tidy.edited next = defaultView := by
  have hsearch : next.search.getD (trim view.search) = next.search.getD view.search := by
    have hempty : next.search.getD view.search = "" := congrArg (fun view => view.search) hedited
    cases hnext : next.search with
    | none =>
      rw [hnext, Option.getD_none] at hempty
      rw [Option.getD_none, Option.getD_none, hempty]
      exact trim_empty
    | some text => rfl
  have hasset : next.assetSymbol.getD (trimmed view.assetSymbol) =
      next.assetSymbol.getD view.assetSymbol := by
    have hnone : next.assetSymbol.getD view.assetSymbol = none :=
      congrArg (fun view => view.assetSymbol) hedited
    cases hnext : next.assetSymbol with
    | none =>
      rw [hnext, Option.getD_none] at hnone
      rw [Option.getD_none, Option.getD_none, hnone]
      rfl
    | some assetSymbol => rfl
  rw [← hedited]
  simp only [DenseListView.edited, DenseListView.tidy, hsearch, hasset]

end RoundTrip

section Links
variable (repair : List UInt8 → String)

def ViewEdit.FromChip (next : ViewEdit) : Prop :=
  ∀ assetSymbol ∈ next.assetSymbol, trimmed assetSymbol = assetSymbol

theorem shownView_tidy (query : List UInt8) : (shownView repair query).tidy = shownView repair query :=
  readListView_tidy _

theorem shownView_setView (query : List UInt8) (next : ViewEdit) :
    shownView repair (setView repair query next) = ((shownView repair query).edited next).tidy := by
  rw [shownView, setView, parse_serialize (textOf_utf8 repair), writeListView, read_writeView, shownView]

theorem shownView_edits (query : List UInt8) (edits : List ViewEdit) :
    shownView repair (edits.foldl (setView repair) query) =
      (edits.foldl DenseListView.edited (shownView repair query)).tidy := by
  induction edits using List.reverseRecOn with
  | nil => exact (shownView_tidy repair query).symm
  | append_singleton edits next ih =>
    rw [List.foldl_append, List.foldl_append, List.foldl_cons, List.foldl_nil, List.foldl_cons,
      List.foldl_nil, shownView_setView, ih, tidy_edited]

theorem edits_assetSymbol {edits : List ViewEdit} (hchips : ∀ next ∈ edits, next.FromChip)
    (query : List UInt8) :
    let merged := edits.foldl DenseListView.edited (shownView repair query)
    trimmed merged.assetSymbol = merged.assetSymbol := by
  induction edits using List.reverseRecOn with
  | nil => exact congrArg (fun view => view.assetSymbol) (shownView_tidy repair query)
  | append_singleton edits next ih =>
    obtain ⟨hedits, hnext⟩ := List.forall_mem_append.mp hchips
    rw [List.foldl_append, List.foldl_cons, List.foldl_nil]
    cases hasset : next.assetSymbol with
    | none => simpa [DenseListView.edited, hasset] using ih hedits
    | some assetSymbol =>
      simpa [DenseListView.edited, hasset] using hnext next List.mem_cons_self assetSymbol hasset

theorem edits_default {edits : List ViewEdit} (hedits : edits ≠ []) {query : List UInt8}
    (hmerged : edits.foldl DenseListView.edited (shownView repair query) = defaultView) :
    edits.foldl (setView repair) query = [] := by
  obtain hnil | ⟨earlier, next, rfl⟩ := List.eq_nil_or_concat' edits
  · exact absurd hnil hedits
  · rw [List.foldl_append, List.foldl_cons, List.foldl_nil] at hmerged ⊢
    have hlast : (shownView repair (earlier.foldl (setView repair) query)).edited next =
        defaultView := by
      rw [shownView_edits]
      exact edited_default hmerged
    rw [setView, writeListView, ← shownView, hlast]
    rfl

end Links

section Lists
variable {toLowerCase : String → String} {view : DenseListView}

theorem select_tidy (hchip : trimmed view.assetSymbol = view.assetSymbol)
    (auctions : List AuctionView) (nowSeconds : ℕ) (connectedAddress : Option String) :
    selectVisibleAuctions toLowerCase auctions view.tidy.toAuctionsListView nowSeconds
        connectedAddress =
      selectVisibleAuctions toLowerCase auctions view.toAuctionsListView nowSeconds
        connectedAddress := by
  simp only [selectVisibleAuctions, DenseListView.tidy, matchesSearch, trim_trim, hchip]

theorem query_tidy (hchip : trimmed view.assetSymbol = view.assetSymbol)
    (connectedAddress cursor : Option String) (limit : ℕ) :
    buildAuctionQuery view.tidy.toAuctionsListView connectedAddress cursor limit =
      buildAuctionQuery view.toAuctionsListView connectedAddress cursor limit := by
  simp only [buildAuctionQuery, DenseListView.tidy, trim_trim, hchip]

end Lists

/-- Whatever query the page was opened with, and however the view is edited from there: its URL opens
the same view again, with its texts trimmed, both lists show for it what they show for the edits
themselves, and the URL is bare where the edits end in the default view. -/
theorem shared_link_reopens (repair : List UInt8 → String) (toLowerCase : String → String)
    (query : List UInt8) {edits : List ViewEdit} (hchips : ∀ next ∈ edits, next.FromChip) :
    let merged := edits.foldl DenseListView.edited (shownView repair query)
    let link := edits.foldl (setView repair) query
    shownView repair link = merged.tidy ∧
      (∀ auctions nowSeconds connectedAddress,
        selectVisibleAuctions toLowerCase auctions (shownView repair link).toAuctionsListView
            nowSeconds connectedAddress =
          selectVisibleAuctions toLowerCase auctions merged.toAuctionsListView nowSeconds
            connectedAddress) ∧
      (∀ connectedAddress cursor limit,
        buildAuctionQuery (shownView repair link).toAuctionsListView connectedAddress cursor limit =
          buildAuctionQuery merged.toAuctionsListView connectedAddress cursor limit) ∧
      (edits ≠ [] → merged = defaultView → link = []) := by
  intro merged link
  have hshown : shownView repair link = merged.tidy := shownView_edits repair query edits
  have hasset : trimmed merged.assetSymbol = merged.assetSymbol := edits_assetSymbol repair hchips query
  refine ⟨hshown, fun auctions nowSeconds connectedAddress => ?_,
    fun connectedAddress cursor limit => ?_, fun hedits hmerged => ?_⟩
  · rw [hshown]
    exact select_tidy hasset auctions nowSeconds connectedAddress
  · rw [hshown]
    exact query_tidy hasset connectedAddress cursor limit
  · exact edits_default repair hedits hmerged

def sampleQuery : List UInt8 := utf8 "seg=yours&sort=old&q=%zz"

def sampleEdits : List ViewEdit :=
  [⟨none, some " mint+1 ", none, none, none⟩, ⟨none, none, some (some "tBENJI"), some .bids, none⟩]

theorem shared_link_reopens_at : ∃ view,
    view = shownView (fun _ => "") (sampleEdits.foldl (setView fun _ => "") sampleQuery) ∧
    view.segment = .yours ∧ view.search = "mint+1" ∧ view.assetSymbol = some "tBENJI" ∧
    view.sort = .bids := by
  have hchips : ∀ next ∈ sampleEdits, next.FromChip := by
    intro next hnext
    simp only [sampleEdits, List.mem_cons, List.not_mem_nil, or_false] at hnext
    obtain rfl | rfl := hnext
    · intro assetSymbol hasset
      cases hasset
    · intro assetSymbol hasset
      cases hasset
      decide +kernel
  obtain ⟨hshown, -⟩ := shared_link_reopens (fun _ => "") String.toLower sampleQuery hchips
  refine ⟨_, rfl, ?_⟩
  rw [hshown]
  decide +kernel

end SealedStellar.Web

import TableQuery.Proofs.Request.Entries
import TableQuery.Proofs.Request.Grammar
import TableQuery.Proofs.Request.Insertion

/-!
# Parameters of a page

A page is asked for by a limit and an offset beside the other parameters, wherever the two stand and
however their numbers are written. The request then has another window, and is the same otherwise.
-/

namespace TableQuery

/-- A number of 64 bits is denoted by its digits. -/
theorem Decimal.denotes_writeNat {n : Nat} (h : n < wordBound) :
    Denotes (String.ofList (writeNat n)) n := by
  have hblank : ∀ c ∈ writeNat n, Text.isBlank c = false :=
    fun c hc => Text.isBlank_of_isDigit (isDigit_of_mem_writeNat hc)
  refine ⟨writeNat n, Or.inl ?_, writeNat_ne_nil n, fun c hc => isDigit_of_mem_writeNat hc,
    digitsValue_writeNat n, h⟩
  rw [String.toList_ofList]
  exact Text.trimBlanks_of_forall hblank

namespace Params

open Request (limitKey offsetKey)

variable {params paged : Params} {limit offset : Nat}

/-- Parameters with the values of others, one limit and one offset apart. -/
structure Pages (params : Params) (limit offset : Nat) (paged : Params) : Prop where
  limit : ∃ raw, paged.getAll limitKey = [raw] ∧ Decimal.Denotes raw limit
  offset : ∃ raw, paged.getAll offsetKey = [raw] ∧ Decimal.Denotes raw offset
  others : ∀ key ∉ [limitKey, offsetKey], paged.getAll key = params.getAll key

/-- A limit and an offset behind all other parameters, in decimal. -/
def page (params : Params) (limit offset : Nat) : Params :=
  ⟨params.pairs ++ [(limitKey, String.ofList (Decimal.writeNat limit)),
    (offsetKey, String.ofList (Decimal.writeNat offset))]⟩

/-- Parameters without a window get the one that is put behind them. -/
theorem pages_page (habsent : ∀ key ∈ [limitKey, offsetKey], params.contains key = false)
    (hlimit : limit < Decimal.wordBound) (hoffset : offset < Decimal.wordBound) :
    params.Pages limit offset (params.page limit offset) := by
  have hvalues (key : String) : (params.page limit offset).getAll key = params.getAll key ++
      (⟨[(limitKey, String.ofList (Decimal.writeNat limit)),
        (offsetKey, String.ofList (Decimal.writeNat offset))]⟩ : Params).getAll key := by
    simp only [getAll, page, List.filter_append, List.map_append]
  have hnone : ∀ key ∈ [limitKey, offsetKey], params.getAll key = [] :=
    fun key hkey => (contains_eq_false_iff params key).1 (habsent key hkey)
  constructor
  · refine ⟨_, ?_, Decimal.denotes_writeNat hlimit⟩
    rw [hvalues, hnone limitKey (by decide)]
    rfl
  · refine ⟨_, ?_, Decimal.denotes_writeNat hoffset⟩
    rw [hvalues, hnone offsetKey (by decide)]
    rfl
  · intro key hkey
    simp only [List.mem_cons, List.not_mem_nil, or_false, not_or] at hkey
    rw [hvalues]
    simp [getAll, Ne.symm hkey.1, Ne.symm hkey.2]

end Params

namespace Request

variable {params paged : Params} {table : Table} {settings : Settings} {request : Request}
  {limit offset : Nat}

/-- Without a limit and an offset, the window starts at the first row and has the configured limit. -/
theorem window_of_absent (h : decode params table settings = .ok request)
    (habsent : ∀ key ∈ [limitKey, offsetKey], params.contains key = false) :
    request.window = ⟨Window.fallbackLimit settings, 0⟩ := by
  simp only [List.forall_mem_cons, Params.contains_eq_false_iff] at habsent
  have hwindow := window_of_decode h
  rw [decodeWindow, Params.single, Params.single, habsent.1, habsent.2.1] at hwindow
  exact (Except.ok.inj hwindow).symm

/-- Without a greatest limit, every page of a request that is decoded is decoded as well: only its
window differs. -/
theorem decode_of_pages (hpages : params.Pages limit offset paged) (hmax : settings.maxLimit = none)
    (h : decode params table settings = .ok request) :
    decode paged table settings = .ok { request with window := ⟨some limit, offset⟩ } := by
  have hcolumns : decodeColumns paged table.columns = decodeColumns params table.columns :=
    decodeColumns_congr_of_notMem (fun key hkey => hpages.others key fun hmem =>
      hkey (mem_globalKeys_of_window hmem)) table.columns
  have hwindow : decodeWindow paged settings = .ok ⟨some limit, offset⟩ := by
    obtain ⟨rawLimit, hlimit, hlimitDenotes⟩ := hpages.limit
    obtain ⟨rawOffset, hoffset, hoffsetDenotes⟩ := hpages.offset
    refine decodeWindow_eq_ok_iff.2 ⟨⟨some rawLimit, hlimit, ?_⟩, some rawOffset, hoffset, ?_⟩
    · refine Window.readLimit_eq_ok_iff.2 (Or.inl ⟨rawLimit, limit, rfl, hlimitDenotes, ?_, rfl⟩)
      rw [hmax]
      nofun
    · exact Window.readOffset_eq_ok_iff.2 (Or.inl ⟨rawOffset, rfl, hoffsetDenotes⟩)
  have horder : paged.getSplit orderKey = params.getSplit orderKey :=
    Params.getSplit_congr (hpages.others _ (by decide))
  have hrelationships : paged.getSplit relationshipKey = params.getSplit relationshipKey :=
    Params.getSplit_congr (hpages.others _ (by decide))
  simp only [decode, Failure.bind_eq_ok_iff, Except.ok.injEq] at h
  obtain ⟨filters, hfilters, window, _, order, hkeys, rfl⟩ := h
  simp only [decode, Failure.bind_eq_ok_iff, hcolumns, hwindow, horder, hrelationships]
  exact ⟨filters, hfilters, _, rfl, order, hkeys, rfl⟩

end Request

/-- Another window changes a plan in nothing else. -/
theorem Registry.plan_window {registry : Registry} {table : Table} {request : Request}
    {scope : Predicate} {plan : Plan} (h : registry.plan table request scope = .ok plan)
    (window : Window) : registry.plan table { request with window } scope =
      .ok { plan with page := { plan.page with window } } := by
  simp only [Registry.plan, Failure.bind_eq_ok_iff, Except.ok.injEq] at h ⊢
  obtain ⟨order, horder, relationships, hrelationships, rfl⟩ := h
  exact ⟨order, horder, relationships, hrelationships, rfl⟩

end TableQuery

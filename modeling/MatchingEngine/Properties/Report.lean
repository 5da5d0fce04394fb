import MatchingEngine.Exchange.Report
import MatchingEngine.Properties.OrderFile
import MatchingEngine.Properties.Provenance

/-!
# The report can be read back

The printed form of a message determines it, whatever its symbol is: the symbol is the only field
that may contain a space, and the number of fields before and after it is fixed
(`EngineOrderResponse.toString_injective` and its like).

The report of `main` determines the number of orders, the symbols and everything the callbacks
have collected, because symbols that come out of an order file contain neither a comma nor a
newline, and no run makes up any others (`report_determines`).
-/

namespace MatchingEngine

open DelimitedText Numerals Transitions

/-! ## Fields -/

/-- A character that separates fields or lines. -/
def IsBlank (c : Char) : Prop := c = ' ' ∨ c = '\n'

namespace IsBlank

variable {c : Char} {label : String}

lemma not_mem (hc : IsBlank c) {l : List Char} (h : ' ' ∉ l ∧ '\n' ∉ l) : c ∉ l := by
  rcases hc with rfl | rfl
  · exact h.1
  · exact h.2

lemma isDigit (hc : IsBlank c) : c.isDigit = false := by
  rcases hc with rfl | rfl <;> rfl

lemma sideToString (hc : IsBlank c) (s : Side) : c ∉ sideToString s := by
  cases s <;> exact hc.not_mem (by decide)

lemma orderTypeToString (hc : IsBlank c) (t : OrderType) : c ∉ orderTypeToString t := by
  cases t <;> exact hc.not_mem (by decide)

lemma responseStatusToString (hc : IsBlank c) (s : ResponseStatus) :
    c ∉ responseStatusToString s := by
  cases s <;> exact hc.not_mem (by decide)

lemma marketUpdateTypeToString (hc : IsBlank c) (t : MarketUpdateType) :
    c ∉ marketUpdateTypeToString t := by
  cases t <;> exact hc.not_mem (by decide)

lemma field (hc : IsBlank c) (hlabel : ' ' ∉ label.toList ∧ '\n' ∉ label.toList)
    {value : List Char} (hvalue : c ∉ value) : c ∉ printField label value := by
  rw [printField, List.mem_append, not_or]
  exact ⟨hc.not_mem hlabel, hvalue⟩

lemma nat (hc : IsBlank c) (hlabel : ' ' ∉ label.toList ∧ '\n' ∉ label.toList) (n : ℕ) :
    c ∉ printField label (writeNat n) :=
  hc.field hlabel ((isDecimal_writeNat n).not_mem hc.isDigit)

lemma int (hc : IsBlank c) (hlabel : ' ' ∉ label.toList ∧ '\n' ∉ label.toList) (z : ℤ) :
    c ∉ printField label (writeInt z) := by
  refine hc.field hlabel ((isInteger_writeInt z).not_mem hc.isDigit ?_)
  rcases hc with rfl | rfl <;> decide

end IsBlank

lemma sideToString_injective : Function.Injective sideToString := by
  intro s t
  cases s <;> cases t <;> decide

lemma orderTypeToString_injective : Function.Injective orderTypeToString := by
  intro s t
  cases s <;> cases t <;> decide

lemma responseStatusToString_injective : Function.Injective responseStatusToString := by
  intro s t
  cases s <;> cases t <;> decide

lemma marketUpdateTypeToString_injective : Function.Injective marketUpdateTypeToString := by
  intro s t
  cases s <;> cases t <;> decide

lemma writeNat_injective : Function.Injective writeNat := by
  intro m n h
  rw [← (isDecimal_writeNat m).2.2, h, (isDecimal_writeNat n).2.2]

lemma writeUInt64_injective : Function.Injective fun v : UInt64 => writeNat v.toNat :=
  fun _ _ h => UInt64.toNat_inj.mp (writeNat_injective h)

lemma writeInt64_injective : Function.Injective fun v : Int64 => writeInt v.toInt := by
  intro v w h
  have hv := stoll_writeInt v
  rw [show writeInt v.toInt = writeInt w.toInt from h, stoll_writeInt] at hv
  exact (Except.ok.inj hv).symm

lemma printField_injective (label : String) : Function.Injective (printField label) :=
  fun _ _ h => List.append_cancel_left h

/-- A printed struct determines its fields, of which one may contain spaces. -/
lemma printStruct_inj {name : String} {m m' : List Char} {ps ps' qs qs' : List (List Char)}
    (hps : ∀ p ∈ ps ++ qs, ' ' ∉ p) (hps' : ∀ p ∈ ps' ++ qs', ' ' ∉ p)
    (h : printStruct name (ps ++ m :: qs) = printStruct name (ps' ++ m' :: qs'))
    (hlength : ps.length = ps'.length) (hlength' : qs.length = qs'.length) :
    ps = ps' ∧ m = m' ∧ qs = qs' := by
  have hfields := List.append_cancel_left (List.append_cancel_right h)
  exact intercalate_gap_inj hlength hlength' hps hps' hfields

/-! ## Structs -/

/-- The fields of a response, other than its symbol. -/
lemma EngineOrderResponse.not_blank_fields (r : EngineOrderResponse) {c : Char} (hc : IsBlank c) :
    ∀ p ∈ [ printField "status:" (responseStatusToString r.status),
        printField "client:" (writeNat r.clientId.toNat) ] ++
      [ printField "coid:" (writeNat r.clientOrderId.toNat),
        printField "moid:" (writeNat r.marketOrderId.toNat),
        printField "side:" (sideToString r.side),
        printField "exec:" (writeNat r.execQty.toNat),
        printField "leaves:" (writeNat r.leavesQty.toNat),
        printField "price:" (writeInt r.price.toInt) ], c ∉ p := by
  simp only [List.cons_append, List.nil_append, List.forall_mem_cons]
  exact ⟨hc.field (by decide) (hc.responseStatusToString _), hc.nat (by decide) _,
    hc.nat (by decide) _, hc.nat (by decide) _, hc.field (by decide) (hc.sideToString _),
    hc.nat (by decide) _, hc.nat (by decide) _, hc.int (by decide) _, by simp⟩

/-- The line of a response determines it. -/
lemma EngineOrderResponse.toString_injective : Function.Injective EngineOrderResponse.toString := by
  intro r r' h
  obtain ⟨hpre, hsymbol, hpost⟩ :=
    printStruct_inj (r.not_blank_fields (.inl rfl)) (r'.not_blank_fields (.inl rfl)) h rfl rfl
  simp only [List.cons.injEq, (printField_injective _).eq_iff, and_true] at hpre hsymbol hpost
  obtain ⟨hstatus, hclient⟩ := hpre
  obtain ⟨hcoid, hmoid, hside, hexec, hleaves, hprice⟩ := hpost
  cases r
  cases r'
  simp only [EngineOrderResponse.mk.injEq]
  exact ⟨responseStatusToString_injective hstatus, writeUInt64_injective hclient,
    String.toList_inj.mp hsymbol, writeUInt64_injective hcoid, writeUInt64_injective hmoid,
    sideToString_injective hside, writeInt64_injective hprice, writeUInt64_injective hexec,
    writeUInt64_injective hleaves⟩

/-- The fields of an update, other than its symbol. -/
lemma BookUpdate.not_blank_fields (u : BookUpdate) {c : Char} (hc : IsBlank c) :
    ∀ p ∈ [ printField "type:" (marketUpdateTypeToString u.type),
        printField "oid:" (writeNat u.orderId.toNat) ] ++
      [ printField "side:" (sideToString u.side),
        printField "qty:" (writeNat u.qty.toNat),
        printField "price:" (writeInt u.price.toInt) ], c ∉ p := by
  simp only [List.cons_append, List.nil_append, List.forall_mem_cons]
  exact ⟨hc.field (by decide) (hc.marketUpdateTypeToString _),
    hc.nat (by decide) _, hc.field (by decide) (hc.sideToString _),
    hc.nat (by decide) _, hc.int (by decide) _, by simp⟩

/-- The line of an update determines it. -/
lemma BookUpdate.toString_injective : Function.Injective BookUpdate.toString := by
  intro u u' h
  obtain ⟨hpre, hsymbol, hpost⟩ :=
    printStruct_inj (u.not_blank_fields (.inl rfl)) (u'.not_blank_fields (.inl rfl)) h rfl rfl
  simp only [List.cons.injEq, (printField_injective _).eq_iff, and_true] at hpre hsymbol hpost
  obtain ⟨htype, hoid⟩ := hpre
  obtain ⟨hside, hqty, hprice⟩ := hpost
  cases u
  cases u'
  simp only [BookUpdate.mk.injEq]
  exact ⟨marketUpdateTypeToString_injective htype, writeUInt64_injective hoid,
    String.toList_inj.mp hsymbol, sideToString_injective hside, writeInt64_injective hprice,
    writeUInt64_injective hqty⟩

/-- The fields of a request, other than its symbol. -/
lemma EngineOrderRequest.not_blank_fields (r : EngineOrderRequest) {c : Char} (hc : IsBlank c) :
    ∀ p ∈ [ printField "type:" (orderTypeToString r.orderType),
        printField "client:" (writeNat r.clientId.toNat) ] ++
      [ printField "oid:" (writeNat r.orderId.toNat),
        printField "side:" (sideToString r.side),
        printField "qty:" (writeNat r.qty.toNat),
        printField "price:" (writeInt r.price.toInt),
        printField "rx:" (writeInt r.recvTime.toInt) ], c ∉ p := by
  simp only [List.cons_append, List.nil_append, List.forall_mem_cons]
  exact ⟨hc.field (by decide) (hc.orderTypeToString _),
    hc.nat (by decide) _, hc.nat (by decide) _,
    hc.field (by decide) (hc.sideToString _), hc.nat (by decide) _,
    hc.int (by decide) _, hc.int (by decide) _,
    by simp⟩

lemma EngineOrderRequest.toString_injective : Function.Injective EngineOrderRequest.toString := by
  intro r r' h
  obtain ⟨hpre, hsymbol, hpost⟩ :=
    printStruct_inj (r.not_blank_fields (.inl rfl)) (r'.not_blank_fields (.inl rfl)) h rfl rfl
  simp only [List.cons.injEq, (printField_injective _).eq_iff, and_true] at hpre hsymbol hpost
  obtain ⟨htype, hclient⟩ := hpre
  obtain ⟨hoid, hside, hqty, hprice, hrx⟩ := hpost
  cases r
  cases r'
  simp only [EngineOrderRequest.mk.injEq]
  exact ⟨orderTypeToString_injective htype, writeUInt64_injective hclient,
    String.toList_inj.mp hsymbol, writeUInt64_injective hoid, sideToString_injective hside,
    writeInt64_injective hprice, writeUInt64_injective hqty, writeInt64_injective hrx⟩

/-- The fields of a resting order, other than its symbol. -/
lemma OrderRecord.not_blank_fields (o : OrderRecord) {c : Char} (hc : IsBlank c) :
    ∀ p ∈ [ printField "oid:" (writeNat o.orderId.toNat),
        printField "client:" (writeNat o.clientId.toNat) ] ++
      [ printField "type:" (orderTypeToString o.orderType),
        printField "side:" (sideToString o.side),
        printField "price:" (writeInt o.price.toInt),
        printField "orig_qty:" (writeNat o.originalQty.toNat),
        printField "qty:" (writeNat o.qty.toNat),
        printField "ts:" (writeInt o.priorityTs.toInt) ], c ∉ p := by
  simp only [List.cons_append, List.nil_append, List.forall_mem_cons]
  exact ⟨hc.nat (by decide) _, hc.nat (by decide) _,
    hc.field (by decide) (hc.orderTypeToString _),
    hc.field (by decide) (hc.sideToString _),
    hc.int (by decide) _, hc.nat (by decide) _,
    hc.nat (by decide) _, hc.int (by decide) _, by simp⟩

lemma OrderRecord.toString_injective : Function.Injective OrderRecord.toString := by
  intro o o' h
  obtain ⟨hpre, hsymbol, hpost⟩ :=
    printStruct_inj (o.not_blank_fields (.inl rfl)) (o'.not_blank_fields (.inl rfl)) h rfl rfl
  simp only [List.cons.injEq, (printField_injective _).eq_iff, and_true] at hpre hsymbol hpost
  obtain ⟨hoid, hclient⟩ := hpre
  obtain ⟨htype, hside, hprice, horig, hqty, hts⟩ := hpost
  cases o
  cases o'
  simp only [OrderRecord.mk.injEq]
  exact ⟨writeUInt64_injective hoid, writeUInt64_injective hclient, String.toList_inj.mp hsymbol,
    orderTypeToString_injective htype, sideToString_injective hside, writeInt64_injective hprice,
    writeUInt64_injective horig, writeUInt64_injective hqty, writeInt64_injective hts⟩

/-- The printed form of a message or of a resting order determines it, whatever characters its
symbol is made of. -/
theorem printed_determines :
    Function.Injective EngineOrderRequest.toString ∧
      Function.Injective EngineOrderResponse.toString ∧ Function.Injective BookUpdate.toString ∧
      Function.Injective OrderRecord.toString :=
  ⟨EngineOrderRequest.toString_injective, EngineOrderResponse.toString_injective,
    BookUpdate.toString_injective, OrderRecord.toString_injective⟩

/-! ## Lines -/

lemma not_newline_printStruct {name : String} (hname : '\n' ∉ name.toList) {m : List Char}
    {ps qs : List (List Char)} (hps : ∀ p ∈ ps ++ qs, '\n' ∉ p) (hm : '\n' ∉ m) :
    '\n' ∉ printStruct name (ps ++ m :: qs) := by
  have hall : ∀ p ∈ ps ++ m :: qs, '\n' ∉ p := by
    simp only [List.forall_mem_append, List.forall_mem_cons] at hps ⊢
    exact ⟨hps.1, hm, hps.2⟩
  simp only [printStruct, List.mem_append, not_or]
  exact ⟨⟨⟨hname, by simp⟩, not_mem_intercalate (by decide) hall⟩, by simp⟩

lemma EngineOrderResponse.not_newline (r : EngineOrderResponse) (h : '\n' ∉ r.symbol.toList) :
    '\n' ∉ r.toString :=
  not_newline_printStruct (by decide) (r.not_blank_fields (.inr rfl)) (IsBlank.field (.inr rfl)
    (by decide) h)

lemma BookUpdate.not_newline (u : BookUpdate) (h : '\n' ∉ u.symbol.toList) : '\n' ∉ u.toString :=
  not_newline_printStruct (by decide) (u.not_blank_fields (.inr rfl)) (IsBlank.field (.inr rfl)
    (by decide) h)

lemma EngineOrderResponse.toString_ne_nil (r : EngineOrderResponse) : r.toString ≠ [] := by
  simp [EngineOrderResponse.toString, printStruct]

/-- The symbols of an order file can be printed on a line of symbols. -/
lemma OrderFile.symbol_of_mem_orders {file : List Char} {loaded : Loaded}
    (h : readOrders file = .ok loaded) {o : EngineOrderRequest} (ho : o ∈ loaded.orders) :
    ',' ∉ o.symbol.toList ∧ '\n' ∉ o.symbol.toList := by
  have hconv := convertible_of_foldlM h
  rw [readOrders, foldlM_readLine hconv] at h
  obtain rfl := Except.ok.inj h
  obtain ⟨line, hline, hacc⟩ := List.mem_filterMap.mp ho
  have hparse : parseLine line {} = .ok (true, o) := by
    rw [accepted] at hacc
    split at hacc
    · next req hreq => rw [hreq, Option.some.inj hacc]
    · cases hacc
  obtain ⟨type, client, symbol, order, side, price, qty, hf, hfields⟩ :=
    parseLine_eq_true_iff.mp hparse
  obtain ⟨_, _, _, _, -, -, -, -, rfl⟩ := parseFields_eq_ok_iff.mp hfields
  have hmem : symbol ∈ splitFields line := by
    rw [hf.2.1]
    simp
  rw [show (String.ofList symbol).toList = symbol from String.toList_ofList]
  refine ⟨not_mem_of_mem_getlines hmem, fun hnewline => ?_⟩
  exact not_mem_of_mem_getlines hline (mem_of_mem_getlines hmem hnewline)

/-! ## The report -/

/-- The first line of the report. -/
def reportHeader (orders : ℕ) (symbols : List Symbol) : List Char :=
  "orders read: ".toList ++ writeNat orders ++ ", symbols: ".toList ++
    [','].intercalate (symbols.map String.toList)

/-- The report, line by line. -/
lemma printReport_eq (orders : ℕ) (symbols : List Symbol)
    (responseLines updateLines : List (List Char)) :
    printReport orders symbols responseLines updateLines =
      printLines (reportHeader orders symbols :: [] :: "--- responses ---".toList ::
        (responseLines ++ [] :: "--- book updates ---".toList :: updateLines)) := by
  have htitle : "\n\n--- responses ---\n".toList =
      '\n' :: '\n' :: ("--- responses ---".toList ++ ['\n']) := rfl
  have htitle' : "\n--- book updates ---\n".toList =
      '\n' :: ("--- book updates ---".toList ++ ['\n']) := rfl
  delta printReport reportHeader
  simp only [printLines, htitle, htitle', List.flatMap_cons, List.flatMap_append,
    List.append_assoc, List.cons_append, List.nil_append]

lemma reportHeader_inj {n n' : ℕ} {symbols symbols' : List Symbol} (hne : symbols ≠ [])
    (hne' : symbols' ≠ []) (hsymbols : ∀ s ∈ symbols, ',' ∉ s.toList)
    (hsymbols' : ∀ s ∈ symbols', ',' ∉ s.toList)
    (h : reportHeader n symbols = reportHeader n' symbols') : n = n' ∧ symbols = symbols' := by
  have hcomma : ", symbols: ".toList = ',' :: " symbols: ".toList := rfl
  delta reportHeader at h
  simp only [hcomma, List.append_assoc, List.cons_append] at h
  have hnumber := List.append_cancel_left h
  obtain ⟨hn, hrest⟩ := append_delim_inj ((isDecimal_writeNat n).not_mem rfl)
    ((isDecimal_writeNat n').not_mem rfl) hnumber
  refine ⟨writeNat_injective hn, ?_⟩
  have hjoined := List.append_cancel_left hrest
  have hpieces := intercalate_inj (by simpa using hne) (by simpa using hne')
    (by simpa using hsymbols) (by simpa using hsymbols') hjoined
  exact List.map_injective_iff.mpr (fun _ _ => String.toList_inj.mp) hpieces

lemma not_newline_reportHeader (n : ℕ) {symbols : List Symbol}
    (hsymbols : ∀ s ∈ symbols, '\n' ∉ s.toList) : '\n' ∉ reportHeader n symbols := by
  delta reportHeader
  simp only [List.mem_append, not_or]
  refine ⟨⟨⟨by simp, (isDecimal_writeNat n).not_mem rfl⟩, by simp⟩, ?_⟩
  exact not_mem_intercalate (by decide) (by simpa using hsymbols)

/-- What stands before the first blank line is determined. -/
lemma blank_inj {rs rs' us us' : List (List Char)} (hrs : [] ∉ rs) (hrs' : [] ∉ rs')
    (h : rs ++ [] :: us = rs' ++ [] :: us') : rs = rs' ∧ us = us' :=
  append_delim_inj hrs hrs' h

/-- The report determines what it was made of. -/
lemma printReport_inj {n n' : ℕ} {symbols symbols' : List Symbol}
    {rs rs' us us' : List (List Char)} (hne : symbols ≠ []) (hne' : symbols' ≠ [])
    (hsymbols : ∀ s ∈ symbols, ',' ∉ s.toList ∧ '\n' ∉ s.toList)
    (hsymbols' : ∀ s ∈ symbols', ',' ∉ s.toList ∧ '\n' ∉ s.toList)
    (hlines : ∀ l ∈ rs ++ us, '\n' ∉ l) (hlines' : ∀ l ∈ rs' ++ us', '\n' ∉ l)
    (hrs : [] ∉ rs) (hrs' : [] ∉ rs')
    (h : printReport n symbols rs us = printReport n' symbols' rs' us') :
    n = n' ∧ symbols = symbols' ∧ rs = rs' ∧ us = us' := by
  have hread : ∀ {n : ℕ} {symbols : List Symbol} {rs us : List (List Char)},
      (∀ s ∈ symbols, ',' ∉ s.toList ∧ '\n' ∉ s.toList) → (∀ l ∈ rs ++ us, '\n' ∉ l) →
      getlines '\n' (printReport n symbols rs us) = reportHeader n symbols :: [] ::
        "--- responses ---".toList :: (rs ++ [] :: "--- book updates ---".toList :: us) := by
    intro n symbols rs us hsymbols hlines
    rw [printReport_eq]
    refine getlines_flatMap ?_
    simp only [List.forall_mem_cons, List.forall_mem_append] at hlines ⊢
    exact ⟨not_newline_reportHeader n fun s hs => (hsymbols s hs).2, by simp, by simp, hlines.1,
      by simp, by simp, hlines.2⟩
  have hsame := hread (n := n) hsymbols hlines
  rw [h, hread hsymbols' hlines'] at hsame
  obtain ⟨hheader, -, -, hrest⟩ : _ ∧ _ ∧ _ ∧ _ := by
    simpa only [List.cons.injEq] using hsame
  obtain ⟨hn, hs⟩ := reportHeader_inj hne hne' (fun s hs => (hsymbols s hs).1)
    (fun s hs => (hsymbols' s hs).1) hheader.symm
  obtain ⟨hr, hu⟩ := blank_inj hrs' hrs hrest
  exact ⟨hn, hs, hr.symm, (List.cons.inj hu).2.symm⟩

namespace Exchange

open OrderFile

/-- What is known about the lines of a report. -/
structure Reportable (orders : List EngineOrderRequest) (x : Exchange) : Prop where
  some : symbolsOf orders ≠ []
  symbols : ∀ s ∈ symbolsOf orders, ',' ∉ s.toList ∧ '\n' ∉ s.toList
  lines : ∀ l ∈ x.responses.map EngineOrderResponse.toString ++ x.updates.map BookUpdate.toString,
    '\n' ∉ l
  responses : [] ∉ x.responses.map EngineOrderResponse.toString

lemma Visited.reportable {file : List Char} {loaded : Loaded} {x : Exchange}
    (hload : readOrders file = .ok loaded) (hsome : loaded.orders ≠ [])
    (h : Visited loaded.orders x) : Reportable loaded.orders x := by
  have hmem := (mem_symbolsOf_and_nodup loaded.orders).1
  have hsymbols : ∀ s ∈ symbolsOf loaded.orders, ',' ∉ s.toList ∧ '\n' ∉ s.toList := by
    intro s hs
    obtain ⟨o, ho, rfl⟩ := (hmem s).mp hs
    exact symbol_of_mem_orders hload ho
  obtain ⟨hr, hu⟩ := h.symbol_mem
  refine ⟨?_, hsymbols, ?_, ?_⟩
  · obtain ⟨o, ho⟩ := List.exists_mem_of_ne_nil _ hsome
    exact List.ne_nil_of_mem ((hmem _).mpr ⟨o, ho, rfl⟩)
  · rw [List.forall_mem_append, List.forall_mem_map, List.forall_mem_map]
    exact ⟨fun r hmem => r.not_newline (hsymbols _ (hr r hmem)).2,
      fun u hmem => u.not_newline (hsymbols _ (hu u hmem)).2⟩
  · intro hnil
    obtain ⟨r, -, hr⟩ := List.mem_map.mp hnil
    exact r.toString_ne_nil hr

/-- Two reports that are equal were made of the same number of orders, the same symbols, the same
responses and the same updates.  The files may be different ones, and each run may have been stopped
anywhere, after queues overflowed, equal receive times were sorted either way or the clock was
set. -/
theorem report_determines (file file' : List Char) (loaded loaded' : Loaded)
    (hload : readOrders file = .ok loaded) (hload' : readOrders file' = .ok loaded')
    (hsome : loaded.orders ≠ []) (hsome' : loaded'.orders ≠ []) (x x' : Exchange)
    (hx : Visited loaded.orders x) (hx' : Visited loaded'.orders x')
    (h : x.report loaded.orders = x'.report loaded'.orders) :
    loaded.orders.length = loaded'.orders.length ∧
      symbolsOf loaded.orders = symbolsOf loaded'.orders ∧ x.responses = x'.responses ∧
      x.updates = x'.updates := by
  have hr := hx.reportable hload hsome
  have hr' := hx'.reportable hload' hsome'
  obtain ⟨hlength, hsymbols, hresponses, hupdates⟩ := printReport_inj hr.some hr'.some hr.symbols
    hr'.symbols hr.lines hr'.lines hr.responses hr'.responses h
  exact ⟨hlength, hsymbols,
    List.map_injective_iff.mpr EngineOrderResponse.toString_injective hresponses,
    List.map_injective_iff.mpr BookUpdate.toString_injective hupdates⟩

/-- The two orders, where the clock may be set back before any step. -/
lemma exists_visitedRun (turns : List Turn) (times : List Nanos)
    (h : (turns.foldlM (play (performAny ["ACME"]) Turn.action (fun _ _ => True) works)
      (0, { unsubmitted := pairOrders })).any (fun e => decide (PairDone e.2 ∧
        e.2.gateway.pushed.map TimedRequest.rxTime = times)) = true) :
    ∃ x, Visited pairOrders x ∧ PairDone x ∧
      x.gateway.pushed.map TimedRequest.rxTime = times := by
  obtain ⟨n, x, hx, hcheck⟩ := CountedRun.exists_of_play h fun _ _ _ => anyNext_of_performAny
  exact ⟨x, GuardedRun.run hx.run, of_decide_eq_true hcheck⟩

/-- A run in which the clock goes back between the orders, and one in which they are flushed with
equal receive times, write the same report. -/
theorem report_determines_pair : ∃ x x', Visited pairOrders x ∧ Visited pairOrders x' ∧
    x.gateway.pushed.map TimedRequest.rxTime = [2, 1] ∧
    x'.gateway.pushed.map TimedRequest.rxTime = [1, 1] ∧
    x.report pairOrders = x'.report pairOrders ∧ x.responses = x'.responses ∧
    x.updates = x'.updates := by
  obtain ⟨x, hx, ⟨-, hr, hu⟩, htimes⟩ :=
    exists_visitedRun (apartTurns 2 1) [2, 1] (by decide +kernel)
  obtain ⟨x', hx', ⟨-, hr', hu'⟩, htimes'⟩ :=
    exists_visitedRun (pairTurns 1 1) [1, 1] (by decide +kernel)
  have hload : readOrders (printFile pairOrders) = .ok ⟨pairOrders, []⟩ := by
    refine readOrders_printFile fun o ho => ?_
    simp only [pairOrders, List.mem_cons, List.not_mem_nil, or_false] at ho
    rcases ho with rfl | rfl
    · exact ⟨by decide, by decide, by decide⟩
    · exact ⟨by decide, by decide, by decide⟩
  have hreport : x.report pairOrders = x'.report pairOrders := by
    rw [report, report, hr, hu, hr', hu']
  obtain ⟨-, -, hresponses, hupdates⟩ :=
    report_determines _ _ _ _ hload hload (by simp [pairOrders]) (by simp [pairOrders]) x x' hx hx'
      hreport
  exact ⟨x, x', hx, hx', htimes, htimes', hreport, hresponses, hupdates⟩

end Exchange

end MatchingEngine

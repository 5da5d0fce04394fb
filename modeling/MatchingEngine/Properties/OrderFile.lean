import MatchingEngine.Exchange.OrderFile

/-!
# Loading an order file

Three facts about the reader of the order file.

* A line that reaches the number conversions with a field they cannot convert throws, and the load
  ends there: the lines for which `parseLine` returns are described by `Convertible`, and a file is
  loaded to its end, with its malformed lines reported, if and only if all its lines are of that
  kind (`load_completes_iff`).
* `parseLine` accepts more than the documented format.  The conversions ignore what follows a
  numeral and accept signs and blanks before it, a trailing comma is not seen, and every text but
  `BUY` and `SELL` stands for no side.  An accepted line is in the documented format, with the
  request's fields as its values, if and only if none of this occurs in it
  (`accepted_documented_iff`).
* Lines that are written in the documented format are read back (`parseLine_printLine`), and so are
  files of such lines (`readOrders_printFile`).
-/

namespace MatchingEngine.OrderFile

open DelimitedText Numerals

/-! ## Lines that do not convert -/

/-- The numeric fields of a line start with numerals of any sign that fit their types. -/
structure NumbersFit (client order price qty : List Char) : Prop where
  client : ∃ negative magnitude, LeadingNumeral client negative magnitude ∧ magnitude < 2 ^ 64
  order : ∃ negative magnitude, LeadingNumeral order negative magnitude ∧ magnitude < 2 ^ 64
  price : ∃ negative magnitude, LeadingNumeral price negative magnitude ∧
    magnitude < signedBound negative
  qty : ∃ negative magnitude, LeadingNumeral qty negative magnitude ∧ magnitude < 2 ^ 64

/-- If the line reaches the conversions, they find numerals. -/
def Convertible (line : List Char) : Prop :=
  ∀ type client symbol order side price qty,
    HasFields line type client symbol order side price qty → NumbersFit client order price qty

lemma parseFields_returns_iff (req : EngineOrderRequest)
    (client symbol order side price qty : List Char) :
    (∃ req', parseFields req client symbol order side price qty = .ok req') ↔
      NumbersFit client order price qty := by
  constructor
  · rintro ⟨req', h⟩
    obtain ⟨clientId, orderId, price', qty', hclient, horder, hprice, hqty, -⟩ :=
      parseFields_eq_ok_iff.mp h
    exact ⟨stoull_returns_iff.mp ⟨_, hclient⟩, stoull_returns_iff.mp ⟨_, horder⟩,
      stoll_returns_iff.mp ⟨_, hprice⟩, stoull_returns_iff.mp ⟨_, hqty⟩⟩
  · rintro ⟨hclient, horder, hprice, hqty⟩
    obtain ⟨clientId, hclient⟩ := stoull_returns_iff.mpr hclient
    obtain ⟨orderId, horder⟩ := stoull_returns_iff.mpr horder
    obtain ⟨price', hprice⟩ := stoll_returns_iff.mpr hprice
    obtain ⟨qty', hqty⟩ := stoull_returns_iff.mpr hqty
    exact ⟨_, parseFields_eq_ok_iff.mpr ⟨_, _, _, _, hclient, horder, hprice, hqty, rfl⟩⟩

lemma parseLine_returns_iff (line : List Char) (req : EngineOrderRequest) :
    (∃ parsed req', parseLine line req = .ok (parsed, req')) ↔ Convertible line := by
  constructor
  · rintro ⟨parsed, req', h⟩ type client symbol order side price qty hf
    exact (parseFields_returns_iff { req with orderType := parseType type } client symbol order
      side price qty).mp ⟨req', (hf.parseLine_eq_ok_iff.mp h).2⟩
  · intro h
    by_cases hfields : ∃ type client symbol order side price qty,
        HasFields line type client symbol order side price qty
    · obtain ⟨type, client, symbol, order, side, price, qty, hf⟩ := hfields
      obtain ⟨req', hparse⟩ := (parseFields_returns_iff { req with orderType := parseType type }
        client symbol order side price qty).mpr (h _ _ _ _ _ _ _ hf)
      exact ⟨true, req', hf.parseLine_eq_ok_iff.mpr ⟨rfl, hparse⟩⟩
    · obtain ⟨req', hfalse⟩ := parseLine_of_not_hasFields req fun type client symbol order side
        price qty hf => hfields ⟨type, client, symbol, order, side, price, qty, hf⟩
      exact ⟨false, req', hfalse⟩

/-- The request a line stands for, if it is accepted. -/
def accepted (line : List Char) : Option EngineOrderRequest :=
  match parseLine line {} with
  | .ok (true, req) => some req
  | _ => none

/-- The line should be reported: it is neither accepted nor a comment. -/
def malformed (line : List Char) : Bool := !isComment line && (accepted line).isNone

/-- What a completed load has produced: every line was read, the requests are those of the accepted
lines, and exactly the malformed ones were reported. -/
def loadedOf (lines : List (List Char)) : Loaded :=
  ⟨lines.filterMap accepted, lines.filter malformed⟩

/-- One iteration of the loop, for a line that converts. -/
lemma readLine_convertible {line : List Char} (h : Convertible line) (loaded : Loaded) :
    readLine loaded line = .ok ⟨loaded.orders ++ (accepted line).toList,
      loaded.skipped ++ if malformed line then [line] else []⟩ := by
  obtain ⟨parsed, req, hparse⟩ := (parseLine_returns_iff line {}).mpr h
  rw [readLine, malformed, accepted, hparse]
  cases parsed with
  | true => simp [pure, Except.pure, bind, Except.bind]
  | false =>
    by_cases hcomment : isComment line = true
    · simp [pure, Except.pure, bind, Except.bind, hcomment]
    · simp [pure, Except.pure, bind, Except.bind, hcomment]

lemma foldlM_readLine {lines : List (List Char)} (h : ∀ line ∈ lines, Convertible line)
    (loaded : Loaded) :
    lines.foldlM readLine loaded = .ok ⟨loaded.orders ++ (loadedOf lines).orders,
      loaded.skipped ++ (loadedOf lines).skipped⟩ := by
  induction lines generalizing loaded with
  | nil => simp [loadedOf, pure, Except.pure]
  | cons line lines ih =>
    rw [List.foldlM_cons, readLine_convertible (h line List.mem_cons_self)]
    change List.foldlM readLine _ lines = _
    rw [ih fun l hl => h l (List.mem_cons_of_mem _ hl)]
    cases haccepted : accepted line with
    | none =>
      by_cases hmalformed : malformed line = true
      · simp [loadedOf, haccepted, hmalformed]
      · simp [loadedOf, haccepted, hmalformed]
    | some req =>
      by_cases hmalformed : malformed line = true
      · simp [loadedOf, haccepted, hmalformed]
      · simp [loadedOf, haccepted, hmalformed]

/-- A load that ends has read every line. -/
lemma convertible_of_foldlM {lines : List (List Char)} {loaded loaded' : Loaded}
    (h : lines.foldlM readLine loaded = .ok loaded') : ∀ line ∈ lines, Convertible line := by
  induction lines generalizing loaded with
  | nil => exact fun line hline => absurd hline List.not_mem_nil
  | cons line lines ih =>
    rw [List.foldlM_cons] at h
    cases hread : readLine loaded line with
    | error e =>
      rw [hread] at h
      cases h
    | ok loaded₁ =>
      rw [hread] at h
      intro l hl
      rcases List.mem_cons.mp hl with rfl | hl
      · rw [readLine] at hread
        cases hparse : parseLine l {} with
        | error e =>
          rw [hparse] at hread
          cases hread
        | ok result => exact (parseLine_returns_iff l {}).mp ⟨result.1, result.2, hparse⟩
      · exact ih h l hl

/-- On any line `parseLine` returns if and only if the fields it converts are numerals that fit; of
any file the load reads all lines and reports exactly the malformed ones if and only if each of its
lines is of that kind. -/
theorem load_completes_iff (line : List Char) (req : EngineOrderRequest) (file : List Char) :
    ((∃ parsed req', parseLine line req = .ok (parsed, req')) ↔ Convertible line) ∧
      (readOrders file = .ok (loadedOf (getlines '\n' file)) ↔
        ∀ line ∈ getlines '\n' file, Convertible line) := by
  refine ⟨parseLine_returns_iff line req, convertible_of_foldlM, fun h => ?_⟩
  rw [readOrders, foldlM_readLine h]
  rfl

/-- A client id that is no numeral ends the load, and the line after it is not read. -/
theorem load_ends_at_letter :
    parseLine "LIMIT,x,A,1,BUY,100,5".toList {} = .error .invalidArgument ∧
      readOrders "LIMIT,x,A,1,BUY,100,5\nLIMIT,1,A,2,BUY,100,5\n".toList =
        .error .invalidArgument := by
  decide +kernel

/-! ## What is accepted -/

/-- The line is seven comma-separated fields in the documented format, and they are the fields of
the request: a type name, plain numerals for the two ids and the quantity, a side name, and an
integer for the price. -/
def Documented (line : List Char) (req : EngineOrderRequest) : Prop :=
  ∃ client order price qty,
    line = [','].intercalate [typeName req.orderType, client, req.symbol.toList, order,
      sideName req.side, price, qty] ∧
    req.orderType ≠ .invalid ∧ ',' ∉ req.symbol.toList ∧
    IsDecimal client req.clientId.toNat ∧ IsDecimal order req.orderId.toNat ∧
    IsInteger price req.price.toInt ∧ IsDecimal qty req.qty.toNat

/-- Nothing in the line is skipped or read as something else: it does not end in a comma, the side
field is one of the three documented texts, and the numeric fields are made of digits, with a minus
sign allowed before the price. -/
structure PlainLine (line : List Char) : Prop where
  last : line.getLast? ≠ some ','
  fields : ∀ type client symbol order side price qty,
    splitFields line = [type, client, symbol, order, side, price, qty] →
      (side = "BUY".toList ∨ side = "SELL".toList ∨ side = ['-']) ∧
      (∀ c ∈ client, c.isDigit = true) ∧ (∀ c ∈ order, c.isDigit = true) ∧
      (∃ digits, (price = digits ∨ price = '-' :: digits) ∧ ∀ c ∈ digits, c.isDigit = true) ∧
      ∀ c ∈ qty, c.isDigit = true

lemma not_comma_typeName (t : OrderType) : ',' ∉ typeName t := by
  cases t <;> decide

lemma not_comma_sideName (side : Side) : ',' ∉ sideName side := by
  cases side <;> decide

/-- Seven fields without a comma, the last of them not empty, are what they are split into. -/
lemma splitFields_intercalate {type client symbol order side price qty : List Char}
    (htype : ',' ∉ type) (hclient : ',' ∉ client) (hsymbol : ',' ∉ symbol) (horder : ',' ∉ order)
    (hside : ',' ∉ side) (hprice : ',' ∉ price) (hqty : ',' ∉ qty) (hne : qty ≠ []) :
    splitFields ([','].intercalate [type, client, symbol, order, side, price, qty]) =
      [type, client, symbol, order, side, price, qty] := by
  refine getlines_intercalate ?_ ?_
  · simp only [List.forall_mem_cons]
    exact ⟨htype, hclient, hsymbol, horder, hside, hprice, hqty,
      fun p hp => absurd hp List.not_mem_nil⟩
  · intro p hp
    obtain rfl := Option.some.inj hp
    exact hne

/-- A line in the documented format is split into its fields. -/
lemma splitFields_documented {line client order price qty : List Char} {req : EngineOrderRequest}
    (hline : line = [','].intercalate [typeName req.orderType, client, req.symbol.toList, order,
      sideName req.side, price, qty])
    (hsymbol : ',' ∉ req.symbol.toList) (hclient : IsDecimal client req.clientId.toNat)
    (horder : IsDecimal order req.orderId.toNat) (hprice : IsInteger price req.price.toInt)
    (hqty : IsDecimal qty req.qty.toNat) :
    splitFields line = [typeName req.orderType, client, req.symbol.toList, order,
      sideName req.side, price, qty] := by
  rw [hline]
  exact splitFields_intercalate (not_comma_typeName _) (hclient.not_mem rfl) hsymbol
    (horder.not_mem rfl) (not_comma_sideName _) (hprice.not_mem rfl (by decide))
    (hqty.not_mem rfl) hqty.1

lemma Documented.plain {line : List Char} {req : EngineOrderRequest} (h : Documented line req) :
    PlainLine line := by
  obtain ⟨client, order, price, qty, hline, -, hsymbol, hclient, horder, hprice, hqty⟩ := h
  have hsplit := splitFields_documented hline hsymbol hclient horder hprice hqty
  constructor
  case last =>
    intro hlast
    have hsuffix : qty <:+ line := by
      rw [hline]
      exact suffix_intercalate [','] [typeName req.orderType, client, req.symbol.toList, order,
        sideName req.side, price] qty
    obtain ⟨front, rfl⟩ := hsuffix
    rw [List.getLast?_append_of_ne_nil _ hqty.1] at hlast
    exact hqty.not_mem rfl (List.mem_of_getLast? hlast)
  case fields =>
    intro type' client' symbol' order' side' price' qty' hfields
    rw [hsplit] at hfields
    cases hfields
    refine ⟨?_, hclient.2.1, horder.2.1, ?_, hqty.2.1⟩
    · rw [← sideName_parseSide_iff, parseSide_sideName]
    · rcases hprice with ⟨n, hn, -⟩ | ⟨digits, rfl, n, hn, -⟩
      · exact ⟨price, .inl rfl, hn.2.1⟩
      · exact ⟨digits, .inr rfl, hn.2.1⟩

lemma PlainLine.documented {line : List Char} {req₀ req : EngineOrderRequest} (h : PlainLine line)
    (hparse : parseLine line req₀ = .ok (true, req)) : Documented line req := by
  obtain ⟨type, client, symbol, order, side, price, qty, ⟨-, hsplit, htype⟩, hfields⟩ :=
    parseLine_eq_true_iff.mp hparse
  obtain ⟨clientId, orderId, price', qty', hclient, horder, hprice, hqty, rfl⟩ :=
    parseFields_eq_ok_iff.mp hfields
  obtain ⟨hside, hc, ho, ⟨digits, hp, hdigits⟩, hq⟩ := h.fields _ _ _ _ _ _ _ hsplit
  have hsymbol : ',' ∉ symbol := by
    have hmem : symbol ∈ splitFields line := by simp [hsplit]
    exact not_mem_of_mem_getlines hmem
  refine ⟨client, order, price, qty, ?_, htype, ?_, stoull_digits hc hclient,
    stoull_digits ho horder, stoll_digits hp hdigits hprice, stoull_digits hq hqty⟩
  · change line = [','].intercalate [typeName (parseType type), client,
      (String.ofList symbol).toList, order, sideName (parseSide side), price, qty]
    rw [typeName_parseType htype, (sideName_parseSide_iff side).mpr hside, String.toList_ofList,
      ← hsplit]
    exact (intercalate_getlines h.last).symm
  · rwa [String.toList_ofList]

/-- A line that `parseLine` accepts is in the documented format, with the fields of the request as
its values, if and only if it is plain. -/
theorem accepted_documented_iff {line : List Char} {req₀ req : EngineOrderRequest}
    (haccepted : parseLine line req₀ = .ok (true, req)) : Documented line req ↔ PlainLine line :=
  ⟨Documented.plain, fun h => h.documented haccepted⟩

/-- A limit order that is read as documented. -/
theorem accepted_documented_limit :
    parseLine "LIMIT,1,A,7,BUY,-100,5".toList {} =
        .ok (true, ⟨.limit, 1, "A", 7, .buy, -100, 5, 0⟩) ∧
      (Documented "LIMIT,1,A,7,BUY,-100,5".toList ⟨.limit, 1, "A", 7, .buy, -100, 5, 0⟩ ↔
        PlainLine "LIMIT,1,A,7,BUY,-100,5".toList) := by
  have haccepted : parseLine "LIMIT,1,A,7,BUY,-100,5".toList {} =
      .ok (true, ⟨.limit, 1, "A", 7, .buy, -100, 5, 0⟩) := by decide +kernel
  exact ⟨haccepted, accepted_documented_iff haccepted⟩

/-- A negative quantity is accepted, as almost `2 ^ 64` units. -/
theorem accepted_negative_qty :
    parseLine "LIMIT,1,A,7,BUY,100,-5".toList {} =
        .ok (true, ⟨.limit, 1, "A", 7, .buy, 100, 18446744073709551611, 0⟩) ∧
      ¬ Documented "LIMIT,1,A,7,BUY,100,-5".toList
        ⟨.limit, 1, "A", 7, .buy, 100, 18446744073709551611, 0⟩ := by
  refine ⟨by decide +kernel, fun h => ?_⟩
  have hsplit : splitFields "LIMIT,1,A,7,BUY,100,-5".toList = ["LIMIT".toList, ['1'], ['A'], ['7'],
      "BUY".toList, "100".toList, ['-', '5']] := by decide +kernel
  obtain ⟨-, -, -, -, hqty⟩ := h.plain.fields _ _ _ _ _ _ _ hsplit
  exact absurd (hqty '-' List.mem_cons_self) (by decide)

/-! ## What is written is read back -/

lemma isComment_typeName {t : OrderType} (ht : t ≠ .invalid) (s : List Char) :
    isComment (typeName t ++ s) = false := by
  cases t with
  | invalid => exact absurd rfl ht
  | _ => rfl

/-- The line of a request reaches the conversions with the fields that were written. -/
lemma hasFields_printLine {req : EngineOrderRequest} (htype : req.orderType ≠ .invalid)
    (hsymbol : ',' ∉ req.symbol.toList) :
    HasFields (printLine req) (typeName req.orderType) (writeNat req.clientId.toNat)
      req.symbol.toList (writeNat req.orderId.toNat) (sideName req.side)
      (writeInt req.price.toInt) (writeNat req.qty.toNat) := by
  refine ⟨?_, ?_, ?_⟩
  · rw [printLine, printFields, List.intercalate_cons_cons, List.append_assoc]
    exact isComment_typeName htype _
  · exact splitFields_documented rfl hsymbol (isDecimal_writeNat _) (isDecimal_writeNat _)
      (isInteger_writeInt _) (isDecimal_writeNat _)
  · rwa [parseType_typeName htype]

/-- The conversions give back the fields that were written. -/
lemma parseFields_printed (req₀ : EngineOrderRequest) {req : EngineOrderRequest}
    (htype : req.orderType ≠ .invalid) :
    parseFields { req₀ with orderType := parseType (typeName req.orderType) }
      (writeNat req.clientId.toNat) req.symbol.toList (writeNat req.orderId.toNat)
      (sideName req.side) (writeInt req.price.toInt) (writeNat req.qty.toNat) =
        .ok { req with recvTime := req₀.recvTime } := by
  refine parseFields_eq_ok_iff.mpr ⟨req.clientId, req.orderId, req.price, req.qty,
    stoull_writeNat _, stoull_writeNat _, stoll_writeInt _, stoull_writeNat _, ?_⟩
  rw [parseType_typeName htype, parseSide_sideName, String.ofList_toList]

/-- Reading undoes writing: a request with a valid type and a symbol without a comma is read back
from its line, whatever its other fields are.  Its time stamp is not part of the line. -/
theorem parseLine_printLine {req : EngineOrderRequest} (htype : req.orderType ≠ .invalid)
    (hsymbol : ',' ∉ req.symbol.toList) (req₀ : EngineOrderRequest) :
    parseLine (printLine req) req₀ = .ok (true, { req with recvTime := req₀.recvTime }) :=
  parseLine_eq_true_iff.mpr ⟨_, _, _, _, _, _, _, hasFields_printLine htype hsymbol,
    parseFields_printed req₀ htype⟩

/-- The extreme values of every field. -/
theorem parseLine_printLine_extreme :
    parseLine (printLine ⟨.modify, 18446744073709551615, "", 0, .invalid, -9223372036854775808,
        18446744073709551615, 3⟩) {} =
      .ok (true, ⟨.modify, 18446744073709551615, "", 0, .invalid, -9223372036854775808,
        18446744073709551615, 0⟩) :=
  parseLine_printLine (by decide) (by decide) {}

/-- A request whose line can stand in a file. -/
structure Printable (req : EngineOrderRequest) : Prop where
  type : req.orderType ≠ .invalid
  comma : ',' ∉ req.symbol.toList
  newline : '\n' ∉ req.symbol.toList

lemma Printable.accepted {req : EngineOrderRequest} (h : Printable req) :
    accepted (printLine req) = some { req with recvTime := 0 } := by
  rw [OrderFile.accepted, parseLine_eq_true_iff.mpr ⟨_, _, _, _, _, _, _,
    hasFields_printLine h.type h.comma, parseFields_printed {} h.type⟩]

lemma Printable.convertible {req : EngineOrderRequest} (h : Printable req) :
    Convertible (printLine req) :=
  (parseLine_returns_iff (printLine req) {}).mp ⟨true, _, parseLine_eq_true_iff.mpr
    ⟨_, _, _, _, _, _, _, hasFields_printLine h.type h.comma, parseFields_printed {} h.type⟩⟩

/-- The line of a request is one line. -/
lemma Printable.not_newline {req : EngineOrderRequest} (h : Printable req) :
    '\n' ∉ printLine req := by
  have hfields : ∀ f ∈ printFields req, '\n' ∉ f := by
    simp only [printFields, List.forall_mem_cons]
    refine ⟨?_, (isDecimal_writeNat _).not_mem rfl, h.newline, (isDecimal_writeNat _).not_mem rfl,
      ?_, (isInteger_writeInt _).not_mem rfl (by decide), (isDecimal_writeNat _).not_mem rfl,
      fun f hf => absurd hf List.not_mem_nil⟩
    · cases req.orderType <;> decide
    · cases req.side <;> decide
  exact not_mem_intercalate (by decide) hfields

lemma getlines_printFile {reqs : List EngineOrderRequest} (h : ∀ req ∈ reqs, Printable req) :
    getlines '\n' (printFile reqs) = reqs.map printLine := by
  induction reqs with
  | nil => exact getlines_nil
  | cons req reqs ih =>
    have hline := (h req List.mem_cons_self).not_newline
    rw [printFile, List.flatMap_cons, List.append_assoc, List.singleton_append,
      getlines_append hline, List.map_cons]
    exact congrArg _ (ih fun r hr => h r (List.mem_cons_of_mem _ hr))

/-- A file of such lines is loaded completely: its requests come back in order, and no line is
reported. -/
theorem readOrders_printFile {reqs : List EngineOrderRequest} (h : ∀ req ∈ reqs, Printable req) :
    readOrders (printFile reqs) = .ok ⟨reqs.map fun req => { req with recvTime := 0 }, []⟩ := by
  have hconv : ∀ line ∈ reqs.map printLine, Convertible line := by
    intro line hline
    obtain ⟨req, hreq, rfl⟩ := List.mem_map.mp hline
    exact (h req hreq).convertible
  have horders : (reqs.map printLine).filterMap accepted =
      reqs.map fun req => { req with recvTime := 0 } := by
    rw [List.filterMap_map, ← List.filterMap_eq_map]
    exact List.filterMap_congr fun req hreq => (h req hreq).accepted
  have hskipped : (reqs.map printLine).filter malformed = [] := by
    rw [List.filter_eq_nil_iff]
    intro line hline
    obtain ⟨req, hreq, rfl⟩ := List.mem_map.mp hline
    simp [malformed, (h req hreq).accepted]
  rw [readOrders, getlines_printFile h, foldlM_readLine hconv, loadedOf, horders, hskipped]
  rfl

end MatchingEngine.OrderFile

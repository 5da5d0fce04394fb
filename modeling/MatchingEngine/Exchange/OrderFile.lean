import MatchingEngine.Framework.DelimitedText
import MatchingEngine.Framework.Numerals
import MatchingEngine.Matcher.Messages

/-!
# The order file

The reader of `exchange_main.cpp`: one request a line, seven fields separated by commas,
`TYPE,client_id,symbol,order_id,side,price,qty`.  A `std::string` is the list of its characters.

`parseLine` writes into the request it is given and returns whether the line was accepted; the
number conversions may throw, and nothing on the way up to `main` catches what they throw, so an
exception ends the load.  `readOrders` is the loop of `main` over the lines of the file, with the
requests read and the lines reported on `cerr`.
-/

namespace MatchingEngine.OrderFile

open DelimitedText Numerals

def parseType (s : List Char) : OrderType :=
  if s = "LIMIT".toList then .limit
  else if s = "MARKET".toList then .market
  else if s = "IOC".toList then .ioc
  else if s = "CANCEL".toList then .cancel
  else if s = "MODIFY".toList then .modify
  else .invalid

def parseSide (s : List Char) : Side :=
  if s = "BUY".toList then .buy
  else if s = "SELL".toList then .sell
  else .invalid

/-- `while (std::getline(ss, field, ',')) fields.push_back(field);` -/
def splitFields (line : List Char) : List (List Char) := getlines ',' line

/-- The line is empty or a comment. -/
def isComment (line : List Char) : Bool := line = [] ∨ line.head? = some '#'

/-- The assignments of `parseLine` after the type was recognised. -/
def parseFields (req : EngineOrderRequest) (client symbol order side price qty : List Char) :
    Except ConversionError EngineOrderRequest := do
  let req := { req with clientId := ← stoull client }
  let req := { req with symbol := String.ofList symbol }
  let req := { req with orderId := ← stoull order }
  let req := { req with side := parseSide side }
  let req := { req with price := ← stoll price }
  return { req with qty := ← stoull qty }

/-- `parseLine`: what it returns, and the request it was given as it leaves it. -/
def parseLine (line : List Char) (req : EngineOrderRequest) :
    Except ConversionError (Bool × EngineOrderRequest) :=
  if isComment line then .ok (false, req)
  else
    match splitFields line with
    | [type, client, symbol, order, side, price, qty] =>
      let req := { req with orderType := parseType type }
      if req.orderType = .invalid then .ok (false, req)
      else (parseFields req client symbol order side price qty).map fun req => (true, req)
    | _ => .ok (false, req)

/-- What the load has produced: the requests, and the lines reported as malformed. -/
structure Loaded where
  orders : List EngineOrderRequest
  skipped : List (List Char)
  deriving DecidableEq, Repr

/-- The body of the loop of `main`. -/
def readLine (loaded : Loaded) (line : List Char) : Except ConversionError Loaded := do
  let (parsed, req) ← parseLine line {}
  if parsed then
    return { loaded with orders := loaded.orders ++ [req] }
  else if isComment line then
    return loaded
  else
    return { loaded with skipped := loaded.skipped ++ [line] }

/-- The loop of `main` over the lines of the file. -/
def readOrders (file : List Char) : Except ConversionError Loaded :=
  (getlines '\n' file).foldlM readLine ⟨[], []⟩

/-! ## Writing -/

/-- The name `parseType` recognises. -/
def typeName : OrderType → List Char
  | .limit => "LIMIT".toList
  | .market => "MARKET".toList
  | .ioc => "IOC".toList
  | .cancel => "CANCEL".toList
  | .modify => "MODIFY".toList
  | .invalid => []

/-- The name `parseSide` recognises, or a dash. -/
def sideName : Side → List Char
  | .buy => "BUY".toList
  | .sell => "SELL".toList
  | .invalid => ['-']

/-- The seven fields of a request, with plain decimal numerals. -/
def printFields (req : EngineOrderRequest) : List (List Char) :=
  [typeName req.orderType, writeNat req.clientId.toNat, req.symbol.toList,
    writeNat req.orderId.toNat, sideName req.side, writeInt req.price.toInt,
    writeNat req.qty.toNat]

/-- The line of a request. -/
def printLine (req : EngineOrderRequest) : List Char := [','].intercalate (printFields req)

/-- The lines of some requests, each ended by a newline. -/
def printFile (reqs : List EngineOrderRequest) : List Char :=
  reqs.flatMap fun req => printLine req ++ ['\n']

/-! ## Names -/

lemma parseType_typeName {t : OrderType} (h : t ≠ .invalid) : parseType (typeName t) = t := by
  cases t with
  | invalid => exact absurd rfl h
  | _ => decide

lemma typeName_parseType {s : List Char} (h : parseType s ≠ .invalid) :
    typeName (parseType s) = s := by
  simp only [parseType] at h ⊢
  split_ifs at h ⊢ with h₁ h₂ h₃ h₄ h₅
  · exact h₁.symm
  · exact h₂.symm
  · exact h₃.symm
  · exact h₄.symm
  · exact h₅.symm
  · exact absurd rfl h

lemma parseSide_sideName (side : Side) : parseSide (sideName side) = side := by
  cases side <;> decide

/-- The side field names the side that was read, unless it is some other text. -/
lemma sideName_parseSide_iff (s : List Char) :
    sideName (parseSide s) = s ↔ s = "BUY".toList ∨ s = "SELL".toList ∨ s = ['-'] := by
  constructor
  · intro h
    rw [← h]
    cases parseSide s with
    | buy => exact .inl rfl
    | sell => exact .inr (.inl rfl)
    | invalid => exact .inr (.inr rfl)
  · rintro (rfl | rfl | rfl) <;> decide

/-! ## One line -/

/-- `parseFields` returns exactly the converted fields. -/
lemma parseFields_eq_ok_iff {req req' : EngineOrderRequest}
    {client symbol order side price qty : List Char} :
    parseFields req client symbol order side price qty = .ok req' ↔
      ∃ clientId orderId price' qty', stoull client = .ok clientId ∧ stoull order = .ok orderId ∧
        stoll price = .ok price' ∧ stoull qty = .ok qty' ∧
        req' = { req with
          clientId := clientId, symbol := String.ofList symbol, orderId := orderId,
          side := parseSide side, price := price', qty := qty' } := by
  constructor
  · intro h
    rw [parseFields] at h
    cases hclient : stoull client with
    | error e => rw [hclient] at h; cases h
    | ok clientId =>
      cases horder : stoull order with
      | error e => rw [hclient, horder] at h; cases h
      | ok orderId =>
        cases hprice : stoll price with
        | error e => rw [hclient, horder, hprice] at h; cases h
        | ok price' =>
          cases hqty : stoull qty with
          | error e => rw [hclient, horder, hprice, hqty] at h; cases h
          | ok qty' =>
            rw [hclient, horder, hprice, hqty] at h
            exact ⟨clientId, orderId, price', qty', rfl, rfl, rfl, rfl,
              (Except.ok.inj h).symm⟩
  · rintro ⟨clientId, orderId, price', qty', hclient, horder, hprice, hqty, rfl⟩
    rw [parseFields, hclient, horder, hprice, hqty]
    rfl

/-- The line reaches the conversions: it is not a comment, has seven fields, and starts with the
name of a type. -/
def HasFields (line type client symbol order side price qty : List Char) : Prop :=
  isComment line = false ∧ splitFields line = [type, client, symbol, order, side, price, qty] ∧
    parseType type ≠ .invalid

section

variable {line type client symbol order side price qty : List Char} {req req' : EngineOrderRequest}

lemma HasFields.parseLine_eq (h : HasFields line type client symbol order side price qty)
    (req : EngineOrderRequest) :
    parseLine line req =
      (parseFields { req with orderType := parseType type } client symbol order side price qty).map
        fun req => (true, req) := by
  obtain ⟨hcomment, hsplit, htype⟩ := h
  simp only [parseLine, hcomment, hsplit, Bool.false_eq_true, if_false, htype]

/-- A line that reaches the conversions is accepted if they succeed; no other answer is given. -/
lemma HasFields.parseLine_eq_ok_iff (h : HasFields line type client symbol order side price qty)
    {parsed : Bool} :
    parseLine line req = .ok (parsed, req') ↔ parsed = true ∧
      parseFields { req with orderType := parseType type } client symbol order side price qty =
        .ok req' := by
  rw [h.parseLine_eq]
  cases parseFields { req with orderType := parseType type } client symbol order side price qty with
  | error e => simp [Except.map]
  | ok req'' => simp [Except.map, eq_comm]

/-- A line that does not reach the conversions is not accepted. -/
lemma parseLine_of_not_hasFields (req : EngineOrderRequest)
    (h : ∀ type client symbol order side price qty,
      ¬ HasFields line type client symbol order side price qty) :
    ∃ req', parseLine line req = .ok (false, req') := by
  rw [parseLine]
  by_cases hcomment : isComment line = true
  · exact ⟨req, by rw [if_pos hcomment]⟩
  rw [if_neg hcomment]
  split
  · next type client symbol order side price qty hsplit =>
    by_cases htype : parseType type = .invalid
    · exact ⟨_, if_pos htype⟩
    · exact absurd ⟨Bool.eq_false_iff.mpr hcomment, hsplit, htype⟩ (h _ _ _ _ _ _ _)
  · exact ⟨req, rfl⟩

/-- The lines `parseLine` accepts, and the request it makes of them. -/
lemma parseLine_eq_true_iff :
    parseLine line req = .ok (true, req') ↔
      ∃ type client symbol order side price qty,
        HasFields line type client symbol order side price qty ∧
        parseFields { req with orderType := parseType type } client symbol order side price qty =
          .ok req' := by
  constructor
  · intro h
    by_cases hfields : ∃ type client symbol order side price qty,
        HasFields line type client symbol order side price qty
    · obtain ⟨type, client, symbol, order, side, price, qty, hf⟩ := hfields
      exact ⟨_, _, _, _, _, _, _, hf, (hf.parseLine_eq_ok_iff.mp h).2⟩
    · obtain ⟨req'', hfalse⟩ := parseLine_of_not_hasFields req fun type client symbol order side
        price qty hf => hfields ⟨type, client, symbol, order, side, price, qty, hf⟩
      rw [hfalse] at h
      cases h
  · rintro ⟨type, client, symbol, order, side, price, qty, hf, hparse⟩
    exact hf.parseLine_eq_ok_iff.mpr ⟨rfl, hparse⟩

end

end MatchingEngine.OrderFile

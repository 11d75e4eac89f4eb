import RangeAudit.Program
import RangeAudit.Text.Case
import RangeAudit.Text.Numeral
import RangeAudit.Text.Search

namespace RangeAudit

def criticalNames : List String :=
  ["balance", "price", "ratio", "debt", "supply", "reserve", "liquidity", "amount", "fee", "rate",
    "swap", "pool", "collateral", "token", "share", "yield", "reward", "slippage", "impermanent",
    "apy", "tvl", "borrow", "lend", "stake", "unstake", "mint", "burn", "redeem", "oracle",
    "margin", "leverage", "flash", "loan", "liquidat"]

def criticalTypes : List String :=
  ["erc20", "erc721", "erc1155", "ierc20", "ierc721", "ierc1155", "uniswap", "sushiswap",
    "pancakeswap", "balancer", "curve", "pair", "router", "factory", "amm", "dex", "compound",
    "aave", "makerdao", "cream", "lending", "ctoken", "vault", "pool", "strategy", "yearn",
    "harvest", "chainlink", "oracle", "price", "feed", "uint", "int", "address"]

def contractWords : List String :=
  ["swap", "borrow", "lend", "stake", "deposit", "withdraw", "mint", "burn", "redeem", "claim",
    "liquidate", "flash", "provide", "purchase", "sell", "dex", "pool", "amm", "vault", "yield",
    "farm", "lending", "staking", "oracle", "router", "factory", "exchange", "pair", "token",
    "erc20", "erc721"]

def tokenFunctions : List String :=
  ["transfer", "approve", "transferFrom", "balanceOf", "totalSupply", "allowance"]

def Place.lowerType? (p : Place) : Option String :=
  p.type?.map Text.lower

def Place.isCritical (p : Place) : Bool :=
  Text.containsAny (Text.lower p.text) criticalNames ||
    p.lowerType?.any (Text.containsAny · criticalTypes)

def hasContractWord (name : String) : Bool :=
  Text.containsAny (Text.lower name) contractWords

/-- By the names in it, by what it declares itself to be, or by the functions of a token. -/
def Contract.isFinancial (c : Contract) : Bool :=
  hasContractWord c.name ||
    c.functions.any (fun f => hasContractWord f.name) ||
    c.bases.any hasContractWord ||
    c.stateVariables.any (fun v => hasContractWord v.name) ||
    c.isFungibleToken || c.isUniqueToken ||
    3 ≤ (c.functions.filter fun f => tokenFunctions.contains f.name).length

def widthAfter (stem type : String) : Except Failure Nat :=
  match Text.digitsBehind? stem.toList type.toList with
  | none => .ok 256
  | some digits =>
    if digits.length ≤ Text.digitLimit then .ok (Text.decimalNumber digits)
    else .error (.numeralTooLong digits.length)

/-- The values of a type, by its text in lower case. -/
inductive TypeClass
  | unsigned (bits : Nat)
  | signed (bits : Nat)
  | address
  | truth
  | other
  deriving DecidableEq, Repr

/-- The class of a type; the first word that occurs in its text decides. -/
def TypeClass.ofText (type : String) : Except Failure TypeClass :=
  if Text.contains type "uint" then .unsigned <$> widthAfter "uint" type
  else if Text.contains type "int" then .signed <$> widthAfter "int" type
  else if Text.contains type "address" then .ok .address
  else if Text.contains type "bool" then .ok .truth
  else .ok .other

def Place.isUnsigned (p : Place) : Bool :=
  p.lowerType?.any (Text.contains · "uint")

end RangeAudit

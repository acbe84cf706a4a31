import Qtum.Library.LittleEndian
import Qtum.Primitives.Blob
import Qtum.Script.Script
import Qtum.Library.Abort
import Qtum.Library.Decoder
import Qtum.Library.VarInt
import Qtum.Primitives.Serialize
import Qtum.Script.Interpreter
import Qtum.Script.Verify
import Qtum.Script.ContractSpend
import Qtum.Primitives.Transaction
import Qtum.Primitives.TxSerialize
import Qtum.Script.Standard
import Qtum.Contract.Parse
import Qtum.Coins.Coins
import Qtum.Coins.Compressor
import Qtum.Coins.Undo
import Qtum.Primitives.Block
import Qtum.Script.SigOps
import Qtum.Validation.Transaction
import Qtum.Validation.Inputs
import Qtum.Validation.Block
import Qtum.Validation.Connect
import Qtum.Validation.Value
import Qtum.Validation.Commitment
import Qtum.Validation.Execution
import Qtum.Contract.Accounting
import Qtum.Contract.Condensing
import Qtum.Script.SigHashRefinement
import Qtum.Primitives.TxRoundTrip
import Qtum.Coins.Disk
import Qtum.Coins.Cache
import Qtum.Net.BlockEncodings
import Qtum.Net.CompactBlock
import Qtum.Validation.Fee
import Qtum.Library.MerkleTree
import Qtum.Primitives.Merkle
import Qtum.Script.ScriptNum
import Qtum.Script.SignatureEncoding
import Qtum.Library.Limbs
import Qtum.Arith.Uint256
import Qtum.Arith.Carry
import Qtum.Arith.Bits
import Qtum.Arith.Division
import Qtum.Arith.Compact
import Qtum.Validation.Retarget
import Qtum.Chain.BlockIndex
import Qtum.Validation.Stake
import Qtum.Validation.Index
import Qtum.Encoding.Base58
import Qtum.Encoding.FixedPoint
import Qtum.Library.BitString
import Qtum.Encoding.Base64
import Qtum.Encoding.Money
import Qtum.Rpc.Amount
import Qtum.Library.OrderStatistic
import Qtum.Chain.Tree
import Qtum.Chain.VersionBits
import Qtum.Chain.BlockVersion
import Qtum.Chain.ActiveChain
import Qtum.Library.ByteBits
import Qtum.Net.MerkleBlock
import Qtum.Net.Bloom
import Qtum.Library.WordBits
import Qtum.Net.RollingBloom

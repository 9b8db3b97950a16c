import Keystore.Rust.Core
import Keystore.Lib.Radix
import Keystore.Lib.Buffered
import Keystore.Lib.Codec
import Keystore.Utils
import Keystore.Blockchain.Utils
import Keystore.Models.Amount
import Keystore.Models.Key
import Keystore.Repos.Keys
import Keystore.Repos.Mocks
import Keystore.Services.Keys
import Keystore.Btc.Keys
import Keystore.Btc.Script
import Keystore.Blockchain.Bitcoin
import Keystore.Blockchain.UtxoSelection
import Keystore.Blockchain.BitcoinSigning
import Keystore.Lib.Rlp
import Keystore.Eth.Transaction
import Keystore.Blockchain.Ethereum
